import FindingFilter.Finding.Reading
import FindingFilter.Proofs.Lists
import FindingFilter.Proofs.Text.BlankLines

/-!
# Findings — one to a line

What is read from lines that hold one finding each. Blank lines are passed over, and every other line
must be a finding; the first that is not is told by its number, which counts blank lines as well
(`IsFirstBadLine`).

* **`listOfLines_eq_ok_iff`** — the findings that are read are those of the lines that are not blank;
* **`listOfLines_eq_error_iff`** — what is told is the first bad line, and nothing else;
* **`listOfText_of_unbracketed`** — the same for a text, and what blank lines in front of the bad line
  change: its number, and nothing else.
-/

namespace FindingFilter.Finding

/-! ## Lines -/

/-- The line is blank, or it is a finding. -/
def IsGoodLine (line : List Char) : Prop :=
  Text.isBlankText line = false → ∃ finding, ofLine line = .ok finding

/-- The findings of the lines that are not blank, one of each line and in order. -/
def HoldFindings (lines : List (List Char)) (findings : List Finding) : Prop :=
  List.Forall₂ (fun line finding => ofLine line = .ok finding)
    (lines.filter fun line => !Text.isBlankText line) findings

/-- The line with this number, counted from 1, is no finding, and this is what is wrong with it. All
lines in front of it are blank or findings. -/
def IsFirstBadLine (lines : List (List Char)) (number : Nat) (cause : Json.Error) : Prop :=
  ∃ front line behind, lines = front ++ line :: behind ∧ number = front.length + 1 ∧
    (∀ other ∈ front, IsGoodLine other) ∧ Text.isBlankText line = false ∧
    ofLine line = .error cause

variable {number : Nat} {lines front : List (List Char)} {line : List Char} {cause : Json.Error}

theorem listOfLines_cons_of_blank (h : Text.isBlankText line = true) (lines : List (List Char)) :
    listOfLines number (line :: lines) = listOfLines (number + 1) lines := by
  rw [listOfLines, if_pos h]

theorem listOfLines_cons_of_ok (hblank : Text.isBlankText line = false) {finding : Finding}
    (h : ofLine line = .ok finding) (lines : List (List Char)) :
    listOfLines number (line :: lines) = (listOfLines (number + 1) lines).map (finding :: ·) := by
  rw [listOfLines, hblank, h]
  rfl

theorem listOfLines_cons_of_error (hblank : Text.isBlankText line = false)
    (h : ofLine line = .error cause) (lines : List (List Char)) :
    listOfLines number (line :: lines) = .error (.line number cause) := by
  rw [listOfLines, hblank, h]
  rfl

theorem holdFindings_cons_of_blank (h : Text.isBlankText line = true) {findings : List Finding} :
    HoldFindings (line :: lines) findings ↔ HoldFindings lines findings := by
  rw [HoldFindings, List.filter_cons, h]
  rfl

theorem holdFindings_cons_iff (h : Text.isBlankText line = false) {findings : List Finding} :
    HoldFindings (line :: lines) findings ↔ ∃ finding others,
      ofLine line = .ok finding ∧ HoldFindings lines others ∧ findings = finding :: others := by
  rw [HoldFindings, List.filter_cons, h]
  exact List.forall₂_cons_left_iff

/-- **Lines that are blank or findings are all read**, and the findings stand in their order. -/
theorem listOfLines_of_holdFindings {findings : List Finding} (h : HoldFindings lines findings)
    (number : Nat) : listOfLines number lines = .ok findings := by
  induction lines generalizing number findings with
  | nil =>
    obtain ⟨⟩ := h
    rfl
  | cons line lines ih =>
    cases hblank : Text.isBlankText line with
    | true =>
      rw [listOfLines_cons_of_blank hblank]
      exact ih ((holdFindings_cons_of_blank hblank).mp h) (number + 1)
    | false =>
      obtain ⟨finding, others, hline, hothers, rfl⟩ := (holdFindings_cons_iff hblank).mp h
      rw [listOfLines_cons_of_ok hblank hline, ih hothers (number + 1)]
      rfl

theorem exists_holdFindings_of_good (h : ∀ line ∈ lines, IsGoodLine line) :
    ∃ findings, HoldFindings lines findings := by
  have hfindings : ∀ line ∈ lines.filter fun line => !Text.isBlankText line,
      ∃ finding, ofLine line = .ok finding := by
    intro line hmem
    obtain ⟨hline, hblank⟩ := List.mem_filter.mp hmem
    exact h line hline (by simpa using hblank)
  exact exists_forall₂_iff.mpr hfindings

/-- **The first bad line is told**, with what is wrong with it. -/
theorem listOfLines_of_bad (hfront : ∀ other ∈ front, IsGoodLine other)
    (hblank : Text.isBlankText line = false) (h : ofLine line = .error cause)
    (behind : List (List Char)) (number : Nat) :
    listOfLines number (front ++ line :: behind) =
      .error (.line (number + front.length) cause) := by
  induction front generalizing number with
  | nil => exact listOfLines_cons_of_error hblank h behind
  | cons first front ih =>
    obtain ⟨hfirst, hrest⟩ := List.forall_mem_cons.mp hfront
    have hnumber : number + 1 + front.length = number + (first :: front).length := by
      rw [List.length_cons]
      omega
    rw [List.cons_append, ← hnumber]
    cases hpassed : Text.isBlankText first with
    | true => rw [listOfLines_cons_of_blank hpassed, ih hrest]
    | false =>
      obtain ⟨finding, hfinding⟩ := hfirst hpassed
      rw [listOfLines_cons_of_ok hpassed hfinding, ih hrest]
      rfl

theorem listOfLines_of_isFirstBadLine (h : IsFirstBadLine lines number cause) :
    listOfLines 1 lines = .error (.line number cause) := by
  obtain ⟨front, line, behind, rfl, rfl, hfront, hblank, hline⟩ := h
  rw [listOfLines_of_bad hfront hblank hline, Nat.add_comm]

theorem good_or_exists_isFirstBadLine (lines : List (List Char)) :
    (∀ line ∈ lines, IsGoodLine line) ∨ ∃ number cause, IsFirstBadLine lines number cause := by
  refine (forall_or_exists_first IsGoodLine lines).imp_right ?_
  rintro ⟨front, line, behind, rfl, hfront, hbad⟩
  obtain ⟨hblank, hnone⟩ := Classical.not_imp.mp hbad
  cases hline : ofLine line with
  | ok finding => exact absurd ⟨finding, hline⟩ hnone
  | error cause => exact ⟨_, cause, front, line, behind, rfl, rfl, hfront, hblank, hline⟩

theorem good_of_listOfLines {findings : List Finding} (h : listOfLines 1 lines = .ok findings) :
    ∀ line ∈ lines, IsGoodLine line := by
  refine (good_or_exists_isFirstBadLine lines).resolve_right ?_
  rintro ⟨number, cause, hbad⟩
  rw [listOfLines_of_isFirstBadLine hbad] at h
  cases h

theorem listOfLines_eq_ok_iff {findings : List Finding} :
    listOfLines 1 lines = .ok findings ↔ HoldFindings lines findings := by
  constructor
  · intro h
    obtain ⟨others, hothers⟩ := exists_holdFindings_of_good (good_of_listOfLines h)
    rw [listOfLines_of_holdFindings hothers] at h
    rwa [← Except.ok.inj h]
  · exact fun h => listOfLines_of_holdFindings h 1

theorem isOk_listOfLines_iff :
    (∃ findings, listOfLines 1 lines = .ok findings) ↔ ∀ line ∈ lines, IsGoodLine line := by
  simp only [listOfLines_eq_ok_iff]
  constructor
  · exact fun ⟨findings, h⟩ => good_of_listOfLines (listOfLines_eq_ok_iff.mpr h)
  · exact exists_holdFindings_of_good

theorem listOfLines_eq_error_iff {failure : ReadError} :
    listOfLines 1 lines = .error failure ↔
      ∃ number cause, failure = .line number cause ∧ IsFirstBadLine lines number cause := by
  constructor
  · intro h
    rcases good_or_exists_isFirstBadLine lines with hgood | ⟨number, cause, hbad⟩
    · obtain ⟨findings, hread⟩ := isOk_listOfLines_iff.mpr hgood
      rw [hread] at h
      cases h
    · rw [listOfLines_of_isFirstBadLine hbad] at h
      exact ⟨number, cause, (Except.error.inj h).symm, hbad⟩
  · rintro ⟨number, cause, rfl, hbad⟩
    exact listOfLines_of_isFirstBadLine hbad

/-! ## Texts -/

variable {text other : String} {n : Nat}

theorem listOfText_of_lines (h : (Text.trimStart text.toList).head? ≠ some '[') :
    listOfText text = listOfLines 1 (Text.lines text.toList) := by
  rw [listOfText]
  exact if_neg (by simpa using h)

/-- Blank lines in front of the first bad line move it. -/
theorem isFirstBadLine_of_isPadded (h : IsFirstBadLine (Text.lines text.toList) number cause)
    (hpadded : Text.IsPadded n number text.toList other.toList) :
    IsFirstBadLine (Text.lines other.toList) (number + n) cause := by
  obtain ⟨front, line, behind, hlines, rfl, hfront, hblank, hline⟩ := h
  obtain ⟨early, padded, rest, hlength, hcount, hmem, htext, hother⟩ := Text.lines_of_isPadded hpadded
  -- The lines that may be moved apart end in front of the bad line.
  obtain ⟨between, rfl, rfl⟩ : ∃ between, front = early ++ between ∧
      rest = between ++ line :: behind := by
    have hsplit : early ++ rest = front ++ line :: behind := htext.symm.trans hlines
    obtain ⟨between, rfl⟩ : early <+: front :=
      List.prefix_of_prefix_length_le ⟨rest, hsplit⟩ ⟨_, rfl⟩ (Nat.le_of_lt_succ hlength)
    rw [List.append_assoc] at hsplit
    exact ⟨between, rfl, List.append_cancel_left hsplit⟩
  refine ⟨padded ++ between, line, behind, ?_, ?_, ?_, hblank, hline⟩
  · rw [hother, List.append_assoc]
  · rw [List.length_append, List.length_append, hcount]
    omega
  · obtain ⟨hearly, hbetween⟩ := List.forall_mem_append.mp hfront
    refine List.forall_mem_append.mpr ⟨fun other hother => ?_, hbetween⟩
    rcases hmem other hother with hold | hblank
    · exact hearly other hold
    · intro hnot
      rw [hblank] at hnot
      cases hnot

/-- **Findings one to a line.** If the first character that is not blank is no bracket, the findings
of a text are those of its lines. There are findings exactly if every line is blank or a finding; if
not, the first bad line is told by its number, and there are no findings. Blank lines in front of it
are counted: with `n` more of them, the same is said of a number greater by `n`. -/
theorem listOfText_of_unbracketed (h : (Text.trimStart text.toList).head? ≠ some '[') :
    let lines := Text.lines text.toList
    (∀ findings, listOfText text = .ok findings ↔ HoldFindings lines findings) ∧
      ((∃ findings, listOfText text = .ok findings) ↔ ∀ line ∈ lines, IsGoodLine line) ∧
      (∀ failure, listOfText text = .error failure ↔
        ∃ number cause, failure = .line number cause ∧ IsFirstBadLine lines number cause) ∧
      ∀ number cause, listOfText text = .error (.line number cause) →
        (ReadError.line number cause).message = "Invalid diagnostic on line " ++ toString number ∧
        ∀ n (other : String), Text.IsPadded n number text.toList other.toList →
          listOfText other = .error (.line (number + n) cause) := by
  intro lines
  have hread : listOfText text = listOfLines 1 lines := listOfText_of_lines h
  simp only [hread]
  refine ⟨fun findings => listOfLines_eq_ok_iff, isOk_listOfLines_iff,
    fun failure => listOfLines_eq_error_iff, ?_⟩
  intro number cause hbad
  refine ⟨rfl, fun n other hpadded => ?_⟩
  obtain ⟨_, _, hfailure, hfirst⟩ := listOfLines_eq_error_iff.mp hbad
  obtain ⟨rfl, rfl⟩ := ReadError.line.inj hfailure
  -- The blank lines are not what the text begins with, so it is still read line by line.
  have hother : (Text.trimStart other.toList).head? ≠ some '[' := by
    rwa [Text.head?_trimStart_of_isPadded hpadded]
  rw [listOfText_of_lines hother]
  exact listOfLines_of_isFirstBadLine (isFirstBadLine_of_isPadded hfirst hpadded)

/-- The fourth line is no finding. Two blank lines more, one in front of the text and one with a
carriage return in it, make it the sixth. -/
theorem listOfText_of_unbracketed_fourth_line :
    let finding := "\x7b\"error_id\": \"memleak\"\x7d\r\n"
    let text := "\n" ++ finding ++ " \t\nmemleak\n"
    let other := "\n\n" ++ finding ++ "\r\n \t\nmemleak\n"
    (Text.trimStart text.toList).head? ≠ some '[' ∧
      listOfText text = .error (.line 4 (.unexpectedCharacter 'm')) ∧
      Text.IsPadded 2 4 text.toList other.toList ∧
      listOfText other = .error (.line 6 (.unexpectedCharacter 'm')) := by
  intro finding text other
  have hguess : (Text.trimStart text.toList).head? ≠ some '[' := by decide +kernel
  have hbad : listOfText text = .error (.line 4 (.unexpectedCharacter 'm')) := by decide +kernel
  have hpadded : Text.IsPadded 2 4 text.toList other.toList := by
    have hempty : Text.IsBlankLine [] := ⟨by decide, by decide⟩
    have hreturn : Text.IsBlankLine ['\r'] := ⟨by decide, by decide⟩
    exact ⟨[[], finding.toList.dropLast, " \t".toList], _, "memleak\n".toList, by decide, by decide,
      .insert hempty (.keep _ (.keep _ (.insert hreturn (.keep _ .nil)))), by decide +kernel,
      by decide +kernel⟩
  obtain ⟨-, -, -, hmoved⟩ := listOfText_of_unbracketed hguess
  exact ⟨hguess, hbad, hpadded, (hmoved 4 _ hbad).2 2 other hpadded⟩

end FindingFilter.Finding
