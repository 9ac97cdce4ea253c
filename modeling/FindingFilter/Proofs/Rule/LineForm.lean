import FindingFilter.Proofs.Rule.Check
import FindingFilter.Proofs.Text.LineNumber
import FindingFilter.Proofs.Text.Pieces
import FindingFilter.Rule.LineForm

/-!
# Rules — the line form, written and read

A line says `id:file:line`, but a file name may hold colons itself, and it may end in something that
reads as a line number (`EndsInNumber`). So not every rule can be told from its line form; those that
can are `IsWritable`.

* **`ofLine_lineForm`** — a rule that is writable is read back from its line form as it was;
* **`isWritable_ofLine`** — every rule that was read from a line is writable, in whatever way the
  line wrote it;
* **`ofLine_lineForm_eq_self_iff`** — so a rule is read back from its line form exactly if it is
  writable;
* **`ruleLines_append_breaks`** — a run of line breaks of any kind and length splits the rule lines of
  a text in two;
* **`ruleLines_of_isJoined`** — lines that hold a rule are the rule lines of the text they are joined
  into, whatever their line ends;
* **`isRuleLine_lineForm`** — the line form of an accepted rule is such a line, if the rule was read
  from one.
-/

namespace FindingFilter.Rule

/-! ## The place -/

/-- Behind the last colon of a file name there is no dot, and a line number to be read. -/
def EndsInNumber (place : List Char) : Prop :=
  ∃ file tail, place = file ++ ':' :: tail ∧ ':' ∉ tail ∧ '.' ∉ tail ∧ Text.lineNumber tail ≠ 0

theorem placeOf_append {tail : List Char} (hcolon : ':' ∉ tail) (file : List Char) :
    placeOf (file ++ ':' :: tail) =
      if '.' ∉ tail ∧ Text.lineNumber tail ≠ 0 then (file, Text.lineNumber tail)
      else (file ++ ':' :: tail, 0) := by
  rw [placeOf, Text.cutLast?_append hcolon]
  by_cases hdot : '.' ∈ tail
  · simp [hdot]
  · by_cases hline : Text.lineNumber tail = 0
    · simp [hdot, hline]
    · simp [hdot, hline]

theorem placeOf_of_not_endsInNumber {place : List Char} (h : ¬ EndsInNumber place) :
    placeOf place = (place, 0) := by
  cases hcut : Text.cutLast? ':' place with
  | none => rw [placeOf, hcut]
  | some parts =>
    obtain ⟨file, tail⟩ := parts
    have hplace := Text.eq_of_cutLast? hcut
    have hcolon := Text.not_mem_of_cutLast? hcut
    have hnot : ¬ ('.' ∉ tail ∧ Text.lineNumber tail ≠ 0) := fun hnumber =>
      h ⟨file, tail, hplace, hcolon, hnumber⟩
    rw [hplace, placeOf_append hcolon, if_neg hnot]

/-- Which separators a file name has does not matter for how it ends. -/
theorem endsInNumber_of_map_slash {place : List Char} (h : EndsInNumber (place.map Text.slash)) :
    EndsInNumber place := by
  obtain ⟨file, tail, heq, hcolon, hdot, hline⟩ := h
  obtain ⟨before, after, rfl, rfl, hafter⟩ := List.map_eq_append_iff.mp heq
  obtain ⟨c, rest, rfl, hc, rfl⟩ := List.map_eq_cons_iff.mp hafter
  obtain rfl : c = ':' := (Text.slash_eq_iff (by decide) (by decide)).mp hc
  rw [Text.mem_map_slash_iff (by decide) (by decide)] at hcolon hdot
  rw [Text.lineNumber_map_slash] at hline
  exact ⟨before, rest, rfl, hcolon, hdot, hline⟩

/-! ## Rules that a line can tell -/

/-- The line form of the rule says all there is to the rule, and in the form in which it is read. -/
structure IsWritable (rule : Rule) : Prop where
  symbol : rule.symbol = ""
  matched : rule.matched = false
  not_mem_id : ':' ∉ rule.id.toList
  not_mem_file : '\\' ∉ rule.file.toList
  toNat_line_le : rule.line.toNat ≤ 2147483647
  /-- Without a line number behind it, the file name must not look as if there was one. -/
  not_endsInNumber : rule.line = 0 → ¬ EndsInNumber rule.file.toList

theorem toList_canonical (path : String) :
    (Path.canonical path).toList = path.toList.map Text.slash := by
  rw [Path.canonical, String.toList_ofList]
  rfl

theorem ofLine_append {id : List Char} (hid : ':' ∉ id) (place : List Char) :
    ofLine (String.ofList (id ++ ':' :: place)) =
      { id := String.ofList id
        file := Path.canonical (String.ofList (placeOf place).1)
        line := (placeOf place).2 } := by
  rw [ofLine, String.toList_ofList, Text.cutFirst?_append hid]

theorem ofLine_of_not_mem {id : String} (hid : ':' ∉ id.toList) : ofLine id = { id } := by
  rw [ofLine, Text.cutFirst?_eq_none_iff.mpr hid]

/-- **A writable rule is read back from its line form.** -/
theorem ofLine_lineForm {rule : Rule} (h : rule.IsWritable) : ofLine rule.lineForm = rule := by
  obtain ⟨id, file, line, symbol, matched⟩ := rule
  obtain ⟨hsymbol, hmatched, hid, hfile, hline, hnumber⟩ := h
  simp only at hsymbol hmatched hid hfile hline hnumber
  subst hsymbol hmatched
  have hcanonical : Path.canonical file = file := Path.canonical_eq_self_iff.mpr hfile
  by_cases hzero : line = 0
  · subst hzero
    by_cases hempty : file = ""
    · -- An id alone.
      subst hempty
      have hform : lineForm { id } = id := by simp [lineForm, hasFile]
      rw [hform, ofLine_of_not_mem hid]
    · -- A file and no number: the whole place is read as the file, as it does not end in a number.
      have hform : lineForm { id, file } = String.ofList (id.toList ++ ':' :: file.toList) := by
        rw [← String.toList_inj]
        simp [lineForm, hasFile, hempty]
      rw [hform, ofLine_append hid, placeOf_of_not_endsInNumber (hnumber rfl)]
      simp only [String.ofList_toList, hcanonical]
  · -- A number: it stands behind the last colon, as no numeral holds a colon, and is read back.
    have hform : lineForm { id, file, line } =
        String.ofList (id.toList ++ ':' :: (file.toList ++ ':' :: (toString line.toNat).toList)) := by
      rw [← String.toList_inj]
      simp [lineForm, hzero]
    have hnumeral : Text.lineNumber (toString line.toNat).toList = line := by
      rw [Text.lineNumber_toString hline, UInt32.ofNat_toNat]
    have hplain {c : Char} (hc : c.isDigit = false) : c ∉ (toString line.toNat).toList := by
      intro hmem
      rw [Text.isDigit_of_mem_toString hmem] at hc
      cases hc
    have hread : placeOf (file.toList ++ ':' :: (toString line.toNat).toList) =
        (file.toList, line) := by
      rw [placeOf_append (hplain (by decide)), hnumeral, if_pos ⟨hplain (by decide), hzero⟩]
    rw [hform, ofLine_append hid, hread]
    simp only [String.ofList_toList, hcanonical]

/-- **What is read from a line can be written.** -/
theorem isWritable_ofLine (line : String) : (ofLine line).IsWritable := by
  have hopen : (0 : UInt32).toNat ≤ 2147483647 := by decide
  cases hcut : Text.cutFirst? ':' line.toList with
  | none =>
    have hid : ':' ∉ line.toList := Text.cutFirst?_eq_none_iff.mp hcut
    rw [ofLine_of_not_mem hid]
    refine ⟨rfl, rfl, hid, by simp, hopen, ?_⟩
    rintro - ⟨file, tail, heq, -⟩
    simp at heq
  | some parts =>
    obtain ⟨id, place⟩ := parts
    have hid : ':' ∉ id := Text.not_mem_of_cutFirst? hcut
    have hline : line = String.ofList (id ++ ':' :: place) := by
      rw [← Text.eq_of_cutFirst? hcut, String.ofList_toList]
    rw [hline, ofLine_append hid]
    by_cases hplace : EndsInNumber place
    · obtain ⟨file, tail, rfl, hcolon, hdot, hnumber⟩ := hplace
      rw [placeOf_append hcolon, if_pos ⟨hdot, hnumber⟩]
      refine ⟨rfl, rfl, by simpa using hid, Path.not_mem_canonical _, ?_, ?_⟩
      · exact Text.toNat_lineNumber_le tail
      · exact fun hzero => absurd hzero hnumber
    · rw [placeOf_of_not_endsInNumber hplace]
      refine ⟨rfl, rfl, by simpa using hid, Path.not_mem_canonical _, hopen, ?_⟩
      intro _ hends
      -- That the separators are rewritten between the two readings makes no difference.
      rw [toList_canonical, String.toList_ofList] at hends
      exact hplace (endsInNumber_of_map_slash hends)

theorem endsInNumber_iff {place : List Char} :
    EndsInNumber place ↔
      ∃ file tail value, place = file ++ ':' :: tail ∧ ':' ∉ tail ∧ '.' ∉ tail ∧
        Text.leadingInt? tail = some value ∧ 0 < value := by
  constructor
  · rintro ⟨file, tail, hplace, hcolon, hdot, hline⟩
    obtain ⟨value, hread, hpositive⟩ := Text.lineNumber_ne_zero_iff.mp hline
    exact ⟨file, tail, value, hplace, hcolon, hdot, hread, hpositive⟩
  · rintro ⟨file, tail, value, hplace, hcolon, hdot, hread, hpositive⟩
    have hline : Text.lineNumber tail ≠ 0 :=
      Text.lineNumber_ne_zero_iff.mpr ⟨value, hread, hpositive⟩
    exact ⟨file, tail, hplace, hcolon, hdot, hline⟩

/-- **The rules that are read back from their line form** are the writable ones: a rule that comes
back was read from a line, and what is read from a line is writable. -/
theorem ofLine_lineForm_eq_self_iff (rule : Rule) :
    ofLine rule.lineForm = rule ↔
      rule.symbol = "" ∧ rule.matched = false ∧ ':' ∉ rule.id.toList ∧ '\\' ∉ rule.file.toList ∧
        rule.line.toNat ≤ 2147483647 ∧
        (rule.line = 0 → ¬ ∃ file tail value, rule.file.toList = file ++ ':' :: tail ∧ ':' ∉ tail ∧
          '.' ∉ tail ∧ Text.leadingInt? tail = some value ∧ 0 < value) := by
  constructor
  · intro hread
    have hwritable : rule.IsWritable := hread ▸ isWritable_ofLine rule.lineForm
    obtain ⟨hsymbol, hmatched, hid, hfile, hline, hnumber⟩ := hwritable
    exact ⟨hsymbol, hmatched, hid, hfile, hline, fun hzero => mt endsInNumber_iff.mpr (hnumber hzero)⟩
  · rintro ⟨hsymbol, hmatched, hid, hfile, hline, hnumber⟩
    have hwritable : rule.IsWritable :=
      ⟨hsymbol, hmatched, hid, hfile, hline, fun hzero => mt endsInNumber_iff.mp (hnumber hzero)⟩
    exact ofLine_lineForm hwritable

/-! ## The lines of a rule file -/

/-- The line stands for a rule, if perhaps for one that is refused. -/
structure IsRuleLine (line : List Char) : Prop where
  isUnbroken : Text.IsUnbroken line
  ne_nil : line ≠ []
  not_comment : ¬ ['/', '/'] <+: line

theorem isRuleLine_of_mem_ruleLines {content line : List Char} (h : line ∈ ruleLines content) :
    IsRuleLine line := by
  obtain ⟨hpiece, hkept⟩ := List.mem_filter.mp h
  obtain ⟨hne, hcomment⟩ := isKept_iff.mp hkept
  exact ⟨Text.uncut_of_mem_splitAt hpiece, hne, hcomment⟩

theorem ruleLines_of_isRuleLine {line : List Char} (h : IsRuleLine line) :
    ruleLines line = [line] := by
  have hkept : isKept line = true := isKept_iff.mpr ⟨h.ne_nil, h.not_comment⟩
  rw [ruleLines, Text.splitAt_of_uncut h.isUnbroken, List.filter_cons_of_pos hkept,
    List.filter_nil]

/-- A line break splits the rule lines in two. -/
theorem ruleLines_append_cons {c : Char} (hc : Text.isLineBreak c = true)
    (before after : List Char) :
    ruleLines (before ++ c :: after) = ruleLines before ++ ruleLines after := by
  rw [ruleLines, Text.splitAt_append_cons hc, List.filter_append]
  rfl

/-- Line breaks at the beginning leave empty pieces only, which hold no rule. -/
theorem ruleLines_append_of_breaks {breaks : List Char}
    (hbreaks : ∀ c ∈ breaks, Text.isLineBreak c = true) (after : List Char) :
    ruleLines (breaks ++ after) = ruleLines after := by
  induction breaks with
  | nil => rfl
  | cons c breaks ih =>
    obtain ⟨hc, hrest⟩ := List.forall_mem_cons.mp hbreaks
    have hsplit : ruleLines (c :: (breaks ++ after)) = ruleLines [] ++ ruleLines (breaks ++ after) :=
      ruleLines_append_cons hc [] (breaks ++ after)
    rw [List.cons_append, hsplit, ih hrest]
    rfl

/-- **A run of line breaks splits the rule lines in two**, however long it is. -/
theorem ruleLines_append_breaks {breaks : List Char} (hbreaks : Text.IsBreak breaks)
    (before after : List Char) :
    ruleLines (before ++ (breaks ++ after)) = ruleLines before ++ ruleLines after := by
  obtain ⟨hne, hall⟩ := hbreaks
  cases breaks with
  | nil => exact absurd rfl hne
  | cons c breaks =>
    obtain ⟨hc, hrest⟩ := List.forall_mem_cons.mp hall
    rw [List.cons_append, ruleLines_append_cons hc, ruleLines_append_of_breaks hrest]

/-- Which line breaks a text has, and how many in a row, does not matter for its rule lines. What
stands in front of the two texts is carried along, as a line may begin there. -/
theorem ruleLines_of_isRebroken {text other : List Char} (h : Text.IsRebroken text other)
    (before : List Char) : ruleLines (before ++ other) = ruleLines (before ++ text) := by
  induction h generalizing before with
  | nil => rfl
  | @cons c text other h ih =>
    have hshift := ih (before ++ [c])
    rwa [List.append_assoc, List.append_assoc, List.singleton_append, List.singleton_append]
      at hshift
  | @breaks breaks others text other hbreaks hothers h ih =>
    have hrest : ruleLines other = ruleLines text := ih []
    rw [ruleLines_append_breaks hbreaks, ruleLines_append_breaks hothers, hrest]

/-- **Lines that hold a rule are told apart whatever line ends are between them.** -/
theorem ruleLines_of_isJoined {lines : List (List Char)} {content : List Char}
    (hjoined : Text.IsJoined lines content) (hlines : ∀ line ∈ lines, IsRuleLine line) :
    ruleLines content = lines := by
  induction hjoined with
  | nil => rfl
  | last line => exact ruleLines_of_isRuleLine (hlines line (List.mem_cons_self ..))
  | cons line lineEnd h ih =>
    obtain ⟨hline, hrest⟩ := List.forall_mem_cons.mp hlines
    rw [List.append_assoc, ruleLines_append_breaks (Text.isBreak_lineEnd lineEnd),
      ruleLines_of_isRuleLine hline, ih hrest, List.singleton_append]

/-! ## A line form as a line of a rule file -/

theorem isPrefix_placeOf (place : List Char) : (placeOf place).1 <+: place := by
  by_cases hplace : EndsInNumber place
  · obtain ⟨file, tail, rfl, hcolon, hdot, hnumber⟩ := hplace
    rw [placeOf_append hcolon, if_pos ⟨hdot, hnumber⟩]
    exact List.prefix_append file _
  · simp only [placeOf_of_not_endsInNumber hplace, List.prefix_refl]

/-- No line break gets into a rule. -/
theorem isUnbroken_ofLine {line : List Char} (h : Text.IsUnbroken line) :
    Text.IsUnbroken (ofLine (String.ofList line)).id.toList ∧
      Text.IsUnbroken (ofLine (String.ofList line)).file.toList := by
  cases hcut : Text.cutFirst? ':' line with
  | none =>
    have hid : ':' ∉ (String.ofList line).toList := by
      rw [String.toList_ofList]
      exact Text.cutFirst?_eq_none_iff.mp hcut
    rw [ofLine_of_not_mem hid]
    simpa [Text.IsUnbroken] using h
  | some parts =>
    obtain ⟨id, place⟩ := parts
    obtain rfl := Text.eq_of_cutFirst? hcut
    rw [ofLine_append (Text.not_mem_of_cutFirst? hcut), toList_canonical, String.toList_ofList,
      String.toList_ofList]
    refine ⟨fun c hc => h c (List.mem_append_left _ hc), ?_⟩
    intro c hc
    obtain ⟨d, hd, rfl⟩ := List.mem_map.mp hc
    have hmem : d ∈ id ++ ':' :: place :=
      List.mem_append_right id (List.mem_cons_of_mem _ ((isPrefix_placeOf place).mem hd))
    rw [Text.class_slash (p := Text.isLineBreak) (by decide) d]
    exact h d hmem

theorem toList_lineForm (rule : Rule) :
    rule.lineForm.toList = rule.id.toList ++
      ((if rule.hasFile || rule.line != 0 then ':' :: rule.file.toList else []) ++
        if rule.line != 0 then ':' :: (toString rule.line.toNat).toList else []) := by
  unfold lineForm
  rw [String.toList_append, String.toList_append, List.append_assoc]
  congr 2
  · split
    · rw [String.toList_append]
      rfl
    · rfl
  · split
    · rw [String.toList_append]
      rfl
    · rfl

theorem isUnbroken_lineForm {rule : Rule} (hid : Text.IsUnbroken rule.id.toList)
    (hfile : Text.IsUnbroken rule.file.toList) : Text.IsUnbroken rule.lineForm.toList := by
  have hempty : Text.IsUnbroken [] := by simp [Text.IsUnbroken]
  rw [toList_lineForm]
  refine hid.append (.append ?_ ?_)
  · split
    · exact .cons (by decide) hfile
    · exact hempty
  · split
    · exact .cons (by decide) (Text.isUnbroken_toString _)
    · exact hempty

/-- An id that is accepted is neither empty nor the beginning of a comment. -/
theorem exists_cons_of_check {rule : Rule} (h : rule.check = .ok ()) :
    ∃ first rest, rule.id.toList = first :: rest ∧ first ≠ '/' := by
  rcases check_eq_ok_iff.mp h with hany | ⟨first, rest, hid, hletter, -⟩
  · exact ⟨'*', [], by rw [hany]; rfl, by decide⟩
  · refine ⟨first, rest, hid, ?_⟩
    rintro rfl
    rcases hletter with ⟨hlower, -⟩ | ⟨hlower, -⟩ | hunderscore
    · exact absurd hlower (by decide)
    · exact absurd hlower (by decide)
    · exact absurd hunderscore (by decide)

/-- **The line form of an accepted rule that was read from a line is such a line again.** -/
theorem isRuleLine_lineForm {line : List Char} (hline : Text.IsUnbroken line)
    (hcheck : (ofLine (String.ofList line)).check = .ok ()) :
    IsRuleLine (ofLine (String.ofList line)).lineForm.toList := by
  obtain ⟨hid, hfile⟩ := isUnbroken_ofLine hline
  have hunbroken := isUnbroken_lineForm hid hfile
  obtain ⟨first, rest, hfirst, hslash⟩ := exists_cons_of_check hcheck
  rw [toList_lineForm, hfirst] at hunbroken ⊢
  refine ⟨hunbroken, by simp, ?_⟩
  intro hcomment
  exact hslash (List.cons_prefix_cons.mp hcomment).1.symm

end FindingFilter.Rule
