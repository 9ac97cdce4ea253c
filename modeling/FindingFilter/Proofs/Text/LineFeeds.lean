import FindingFilter.Proofs.Text.Pieces
import Mathlib.Algebra.GroupWithZero.Nat

/-!
# Text — entries and the lines they are written on

Entries that are written with a line feed behind each (`terminated`) take a line each, unless they
hold line feeds themselves. Which lines they take is determined by the text
(`hasLines_terminated_iff`): those of each entry stand together, in the order of the entries, and an
entry takes one line more for each line feed in it (`length_pieces`).
-/

namespace FindingFilter.Text

/-- The text consists of exactly these lines: each is followed by a line feed, and there is no line
feed besides. -/
def HasLines (text : List Char) (lines : List (List Char)) : Prop :=
  text = terminated lines ∧ ∀ line ∈ lines, '\n' ∉ line

/-- The lines that an entry is written on. -/
def pieces (entry : List Char) : List (List Char) :=
  splitAt (· == '\n') entry

theorem not_mem_of_mem_pieces {entry piece : List Char} (h : piece ∈ pieces entry) :
    '\n' ∉ piece := by
  intro hmem
  have huncut := uncut_of_mem_splitAt h '\n' hmem
  cases huncut

theorem pieces_of_not_mem {entry : List Char} (h : '\n' ∉ entry) : pieces entry = [entry] := by
  refine splitAt_of_uncut fun c hmem => ?_
  rw [beq_eq_false_iff_ne]
  rintro rfl
  exact h hmem

/-- A line feed is followed by a new piece. -/
theorem pieces_lineFeed (entry : List Char) : pieces ('\n' :: entry) = [] :: pieces entry := rfl

/-- Any other character goes on with the first piece. -/
theorem exists_pieces_cons {c : Char} (hc : c ≠ '\n') (entry : List Char) :
    ∃ piece more, pieces entry = piece :: more ∧ pieces (c :: entry) = (c :: piece) :: more := by
  cases hpieces : pieces entry with
  | nil => exact absurd hpieces (splitAt_ne_nil _ _)
  | cons piece more =>
    have hcut : ¬ (c == '\n') = true := by simpa using hc
    refine ⟨piece, more, rfl, ?_⟩
    rw [pieces] at hpieces ⊢
    rw [splitAt, if_neg hcut, hpieces]

theorem terminated_pieces (entry : List Char) : terminated (pieces entry) = entry ++ ['\n'] := by
  induction entry with
  | nil => rfl
  | cons c entry ih =>
    by_cases hc : c = '\n'
    · subst hc
      rw [pieces_lineFeed, terminated_cons, ih]
      rfl
    · obtain ⟨piece, more, hpieces, hcons⟩ := exists_pieces_cons hc entry
      rw [hpieces, terminated_cons] at ih
      rw [hcons, terminated_cons, List.cons_append, ih, List.cons_append]

/-- **An entry takes one line, and one more for each line feed in it.** -/
theorem length_pieces (entry : List Char) : (pieces entry).length = entry.count '\n' + 1 := by
  induction entry with
  | nil => rfl
  | cons c entry ih =>
    by_cases hc : c = '\n'
    · subst hc
      rw [pieces_lineFeed, List.length_cons, ih, List.count_cons_self]
    · obtain ⟨piece, more, hpieces, hcons⟩ := exists_pieces_cons hc entry
      rw [hpieces, List.length_cons] at ih
      rw [hcons, List.length_cons, ih, List.count_cons_of_ne hc]

theorem pieces_terminated {lines : List (List Char)} (h : ∀ line ∈ lines, '\n' ∉ line) :
    pieces (terminated lines) = lines ++ [[]] := by
  induction lines with
  | nil => rfl
  | cons line lines ih =>
    obtain ⟨hline, hlines⟩ := List.forall_mem_cons.mp h
    have hcut : pieces (line ++ '\n' :: terminated lines) =
        pieces line ++ pieces (terminated lines) :=
      @splitAt_append_cons (· == '\n') '\n' rfl line (terminated lines)
    rw [terminated_cons, hcut, pieces_of_not_mem hline, ih hlines, List.singleton_append,
      List.cons_append]

/-- A text has its lines in one way only. -/
theorem HasLines.unique {text : List Char} {lines others : List (List Char)}
    (h : HasLines text lines) (hothers : HasLines text others) : lines = others := by
  have hpieces : lines ++ [[]] = others ++ [[]] := by
    rw [← pieces_terminated h.2, ← pieces_terminated hothers.2, ← h.1, ← hothers.1]
  exact List.append_cancel_right hpieces

/-- **The lines of entries that are written one after the other.** -/
theorem hasLines_terminated_iff {entries lines : List (List Char)} :
    HasLines (terminated entries) lines ↔ lines = entries.flatMap pieces := by
  have hlines : HasLines (terminated entries) (entries.flatMap pieces) := by
    constructor
    · have hpieces : (· ++ ['\n']) = fun entry => terminated (pieces entry) :=
        funext fun entry => (terminated_pieces entry).symm
      calc terminated entries
          = entries.flatMap fun entry => terminated (pieces entry) := congrArg entries.flatMap hpieces
        _ = terminated (entries.flatMap pieces) := List.flatMap_assoc.symm
    · intro line hmem
      obtain ⟨entry, -, hpiece⟩ := List.mem_flatMap.mp hmem
      exact not_mem_of_mem_pieces hpiece
  exact ⟨fun h => h.unique hlines, fun heq => heq ▸ hlines⟩

theorem length_flatMap_pieces (entries : List (List Char)) :
    (entries.flatMap pieces).length = entries.length + (entries.map (·.count '\n')).sum := by
  induction entries with
  | nil => rfl
  | cons entry entries ih =>
    rw [List.flatMap_cons, List.length_append, length_pieces, ih, List.length_cons, List.map_cons,
      List.sum_cons]
    omega

end FindingFilter.Text
