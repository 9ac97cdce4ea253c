import FindingFilter.Text.Cut
import FindingFilter.Text.Lines

/-!
# Text — lines that each end in a line feed

Lines without line breaks, written one after the other with a line feed behind each (`terminated`).
This is the form in which a finding keeps its symbols. Two ways of looking into such a text are
compared with the list of lines it was made from:

* **reading the lines back** is exact, but for a carriage return at the end of a line
  (`lines_terminated`), as a line is read up to its line feed (`lines_append_lineFeed`);
* **looking for a needle with its line feed** finds the lines that end in the needle, not only those
  that equal it (`occursIn_terminated_iff`). The line feed behind the needle keeps it from standing
  at the front or in the middle of a longer line, but nothing keeps it from standing at the end.
-/

namespace FindingFilter.Text

/-- No character of the text breaks a line. -/
def IsUnbroken (text : List Char) : Prop :=
  ∀ c ∈ text, isLineBreak c = false

instance (text : List Char) : Decidable (IsUnbroken text) :=
  List.decidableBAll (fun c => isLineBreak c = false) text

/-- The lines as one text, each with a line feed behind it. -/
def terminated (lines : List (List Char)) : List Char :=
  lines.flatMap (· ++ ['\n'])

theorem terminated_nil : terminated [] = [] := rfl

theorem terminated_cons (line : List Char) (lines : List (List Char)) :
    terminated (line :: lines) = line ++ '\n' :: terminated lines := by
  simp [terminated]

theorem not_mem_of_isUnbroken {text : List Char} (h : IsUnbroken text) : '\n' ∉ text := by
  intro hmem
  have := h '\n' hmem
  simp [isLineBreak] at this

theorem isLineBreak_iff {c : Char} : isLineBreak c = true ↔ c = '\r' ∨ c = '\n' := by
  rw [isLineBreak, Bool.or_eq_true, beq_iff_eq, beq_iff_eq]

theorem isLineBreak_of_ne {c : Char} (hreturn : c ≠ '\r') (hfeed : c ≠ '\n') :
    isLineBreak c = false := by
  simp [isLineBreak, hreturn, hfeed]

theorem IsUnbroken.cons {c : Char} {text : List Char} (hc : isLineBreak c = false)
    (h : IsUnbroken text) : IsUnbroken (c :: text) :=
  List.forall_mem_cons.mpr ⟨hc, h⟩

theorem IsUnbroken.append {text other : List Char} (h : IsUnbroken text)
    (hother : IsUnbroken other) : IsUnbroken (text ++ other) :=
  List.forall_mem_append.mpr ⟨h, hother⟩

/-! ## Reading lines back -/

/-- The line without the carriage return at its end, if there is one. -/
def withoutReturn (line : List Char) : List Char :=
  if line.getLast? = some '\r' then line.dropLast else line

theorem withoutReturn_append_return (line : List Char) : withoutReturn (line ++ ['\r']) = line := by
  rw [withoutReturn, List.getLast?_concat, if_pos rfl, List.dropLast_concat]

theorem withoutReturn_of_isUnbroken {line : List Char} (h : IsUnbroken line) :
    withoutReturn line = line := by
  refine if_neg fun hlast => ?_
  have hbreak := h '\r' (List.mem_of_getLast? hlast)
  simp [isLineBreak] at hbreak

theorem isPrefix_withoutReturn (line : List Char) : withoutReturn line <+: line := by
  rw [withoutReturn]
  split
  · exact List.dropLast_prefix line
  · exact List.prefix_refl line

/-- A line loses nothing if and only if it does not end in a carriage return. -/
theorem withoutReturn_eq_self_iff {line : List Char} :
    withoutReturn line = line ↔ line.getLast? ≠ some '\r' := by
  rw [withoutReturn]
  split
  next hlast =>
    have hne : line ≠ [] := by
      rintro rfl
      cases hlast
    refine iff_of_false (fun heq => ?_) (fun hnot => hnot hlast)
    have hlength := congrArg List.length heq
    have hpos := List.length_pos_iff.mpr hne
    rw [List.length_dropLast] at hlength
    omega
  next hlast => exact iff_of_true rfl hlast

theorem mem_of_mem_withoutReturn {line : List Char} {c : Char} (h : c ∈ withoutReturn line) :
    c ∈ line :=
  (isPrefix_withoutReturn line).mem h

/-- **A line is read up to its line feed**, and a carriage return in front of that is no part of it. -/
theorem lines_append_lineFeed {line : List Char} (h : '\n' ∉ line) (rest : List Char) :
    lines (line ++ '\n' :: rest) = withoutReturn line :: lines rest := by
  induction line with
  | nil => rw [List.nil_append, lines]; rfl
  | cons c line ih =>
    obtain ⟨hc, hline⟩ := not_or.mp (mt List.mem_cons.mpr h)
    cases line with
    | nil =>
      by_cases hreturn : c = '\r'
      · subst hreturn
        rw [List.singleton_append, lines]
        rfl
      · have hkept : withoutReturn [c] = [c] := if_neg (by simpa using hreturn)
        rw [List.singleton_append, lines, lines, hkept]
        · exact Ne.symm hc
        · exact fun _ heq _ => hreturn heq
    | cons d line =>
      have hd : d ≠ '\n' := fun heq => hline (heq ▸ List.mem_cons_self)
      have hkept : withoutReturn (c :: d :: line) = c :: withoutReturn (d :: line) := by
        rw [withoutReturn, withoutReturn, List.getLast?_cons_cons, List.dropLast_cons_cons]
        split <;> rfl
      rw [List.cons_append, lines, ih hline, hkept]
      · exact Ne.symm hc
      · exact fun _ _ heq => hd (List.cons.inj heq).1

/-- A last line needs no line feed. -/
theorem lines_of_not_mem {line : List Char} (hne : line ≠ []) (h : '\n' ∉ line) :
    lines line = [line] := by
  induction line with
  | nil => exact absurd rfl hne
  | cons c line ih =>
    obtain ⟨hc, hline⟩ := not_or.mp (mt List.mem_cons.mpr h)
    rw [lines]
    · cases line with
      | nil => rfl
      | cons d line => rw [ih (List.cons_ne_nil d line) hline]
    · exact Ne.symm hc
    · exact fun rest _ heq => hline (heq ▸ List.mem_cons_self)

/-- No line that is read holds a line feed. -/
theorem not_mem_of_mem_lines {text line : List Char} (h : line ∈ lines text) : '\n' ∉ line := by
  fun_induction lines text generalizing line with
  | case1 => cases h
  | case2 rest ih =>
    rcases List.mem_cons.mp h with rfl | hrest
    · exact List.not_mem_nil
    · exact ih hrest
  | case3 rest ih =>
    rcases List.mem_cons.mp h with rfl | hrest
    · exact List.not_mem_nil
    · exact ih hrest
  | case4 c rest hfeed _ hread _ =>
    obtain rfl := List.mem_singleton.mp h
    simpa using Ne.symm hfeed
  | case5 c rest hfeed _ first more hread ih =>
    rw [hread] at ih
    rcases List.mem_cons.mp h with rfl | hmore
    · exact fun hmem => (List.mem_cons.mp hmem).elim (Ne.symm hfeed) (ih List.mem_cons_self)
    · exact ih (List.mem_cons_of_mem _ hmore)

/-- Lines in front of a text are read first, whatever the text is. -/
theorem lines_terminated_append {ls : List (List Char)} (h : ∀ line ∈ ls, '\n' ∉ line)
    (rest : List Char) : lines (terminated ls ++ rest) = ls.map withoutReturn ++ lines rest := by
  induction ls with
  | nil => rfl
  | cons line ls ih =>
    obtain ⟨hline, hls⟩ := List.forall_mem_cons.mp h
    rw [terminated_cons, List.append_assoc, List.cons_append, lines_append_lineFeed hline, ih hls,
      List.map_cons, List.cons_append]

/-- **Terminated lines are read back**, empty ones included, but for the returns at their ends. -/
theorem lines_terminated {ls : List (List Char)} (h : ∀ line ∈ ls, '\n' ∉ line) :
    lines (terminated ls) = ls.map withoutReturn := by
  have hread := lines_terminated_append h []
  rwa [List.append_nil, lines, List.append_nil] at hread

/-! ## Finding a terminated needle -/

theorem occursIn_iff_isInfix {needle text : List Char} :
    occursIn needle text = true ↔ needle <:+: text := by
  induction text with
  | nil => simp [occursIn]
  | cons c rest ih =>
    rw [occursIn, Bool.or_eq_true, List.isPrefixOf_iff_prefix, ih, List.infix_cons_iff]

/-- A needle with a line feed behind it, which has no other, ends where a line ends. -/
theorem prefix_append_newline_iff {needle line rest : List Char} (hneedle : '\n' ∉ needle)
    (hline : '\n' ∉ line) : needle ++ ['\n'] <+: line ++ '\n' :: rest ↔ needle = line := by
  induction needle generalizing line with
  | nil =>
    cases line with
    | nil => simp
    | cons c line =>
      have hc : '\n' ≠ c := by rintro rfl; simp at hline
      simp [hc]
  | cons d needle ih =>
    cases line with
    | nil =>
      have hd : d ≠ '\n' := by rintro rfl; simp at hneedle
      simp [hd]
    | cons c line =>
      simp only [List.mem_cons, not_or] at hneedle hline
      rw [List.cons_append, List.cons_append, List.cons_prefix_cons, ih hneedle.2 hline.2,
        List.cons.injEq]

/-- It stands in a terminated line and what follows if it closes the line or stands in what
follows. -/
theorem infix_append_newline_iff {needle line rest : List Char} (hneedle : '\n' ∉ needle)
    (hline : '\n' ∉ line) :
    needle ++ ['\n'] <:+: line ++ '\n' :: rest ↔ needle <:+ line ∨ needle ++ ['\n'] <:+: rest := by
  induction line with
  | nil =>
    have hhead : needle ++ ['\n'] <+: '\n' :: rest ↔ needle = [] :=
      prefix_append_newline_iff hneedle hline
    rw [List.nil_append, List.infix_cons_iff, hhead, List.suffix_nil]
  | cons c line ih =>
    have hhead : needle ++ ['\n'] <+: c :: (line ++ '\n' :: rest) ↔ needle = c :: line :=
      prefix_append_newline_iff hneedle hline
    have hline' : '\n' ∉ line := fun h => hline (List.mem_cons_of_mem c h)
    rw [List.cons_append, List.infix_cons_iff, hhead, ih hline', List.suffix_cons_iff, or_assoc]

/-- **A terminated needle is found exactly where it closes a line**, be it the whole line or only
its end. -/
theorem occursIn_terminated_iff {needle : List Char} {ls : List (List Char)}
    (hneedle : IsUnbroken needle) (hls : ∀ line ∈ ls, IsUnbroken line) :
    occursIn (needle ++ ['\n']) (terminated ls) = true ↔ ∃ line ∈ ls, needle <:+ line := by
  rw [occursIn_iff_isInfix]
  induction ls with
  | nil => simp [terminated_nil]
  | cons line ls ih =>
    have hline : '\n' ∉ line := not_mem_of_isUnbroken (hls line (by simp))
    rw [terminated_cons, infix_append_newline_iff (not_mem_of_isUnbroken hneedle) hline,
      ih fun l hl => hls l (by simp [hl])]
    simp

end FindingFilter.Text
