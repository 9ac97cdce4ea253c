import FindingFilter.Proofs.Finding.Lines
import FindingFilter.Proofs.Report.JsonForm
import FindingFilter.Proofs.Text.Pieces

/-!
# Findings — the two ways to write a list of them

A list of findings is written as one array, or as a listing: each finding in its compact form on a
line of its own, with blank lines anywhere (`IsListing`). The reader tells the two apart by the first
character that is not blank, a bracket or a brace. No text in a finding has a part in this, as line
breaks in it are written as escapes.

* **`listOfText_of_spells`** — an array is read back in every spelling that begins with its bracket;
* **`listOfText_of_isListing`** — a listing is read back;
* **`listOfText_written`** — both for every list of findings.
-/

namespace FindingFilter.Finding

variable {findings : List Finding} {text : List Char}

/-! ## One finding -/

theorem exists_cons_of_compactChars (finding : Finding) :
    ∃ rest, Json.compactChars finding.toJson = '{' :: rest :=
  ⟨_, rfl⟩

theorem trimStart_compactChars (finding : Finding) :
    Text.trimStart (Json.compactChars finding.toJson) = Json.compactChars finding.toJson := by
  obtain ⟨rest, hrest⟩ := finding.exists_cons_of_compactChars
  rw [hrest, Text.trimStart_cons_of_not_blank (by decide)]

theorem isBlankText_compactChars (finding : Finding) :
    Text.isBlankText (Json.compactChars finding.toJson) = false := by
  obtain ⟨rest, hrest⟩ := finding.exists_cons_of_compactChars
  have hbrace : Text.isBlank '{' = false := by decide
  rw [hrest, Text.isBlankText, List.all_cons, hbrace, Bool.false_and]

theorem ofLine_compactChars (finding : Finding) :
    ofLine (Json.compactChars finding.toJson) = .ok finding := by
  have hread : Json.ofText (String.ofList (Json.compactChars finding.toJson)) = .ok finding.toJson :=
    Json.ofText_compact finding.isWritable_toJson
  rw [ofLine, hread]
  exact finding.ofJson_toJson

theorem isUnbroken_compactChars (finding : Finding) :
    Text.IsUnbroken (Json.compactChars finding.toJson) :=
  Json.isUnbroken_compactChars finding.isWritable_toJson

/-! ## Listings -/

/-- The text holds the findings in order, each on a line of its own. There are blank lines anywhere,
lines end in a line feed with or without a carriage return in front, and the last line may go
without. -/
inductive IsListing : List Finding → List Char → Prop where
  | lastBlank {line : List Char} (hline : Text.IsBlankLine line) : IsListing [] line
  | last (finding : Finding) : IsListing [finding] (Json.compactChars finding.toJson)
  | blank {findings : List Finding} {line text : List Char} (hline : Text.IsBlankLine line)
      (lineEnd : Text.LineEnd) (hend : lineEnd ≠ .carriageReturn) (h : IsListing findings text) :
      IsListing findings (line ++ lineEnd.text ++ text)
  | line (finding : Finding) (lineEnd : Text.LineEnd) (hend : lineEnd ≠ .carriageReturn)
      {findings : List Finding} {text : List Char} (h : IsListing findings text) :
      IsListing (finding :: findings) (Json.compactChars finding.toJson ++ lineEnd.text ++ text)

/-- Every list of findings has a listing: the plain one, with a line feed behind each. -/
theorem isListing_terminated (findings : List Finding) :
    IsListing findings
      (Text.terminated (findings.map fun finding => Json.compactChars finding.toJson)) := by
  induction findings with
  | nil => exact .lastBlank ⟨rfl, List.not_mem_nil⟩
  | cons finding findings ih =>
    have hline := IsListing.line finding .lineFeed (by decide) ih
    rw [List.map_cons, Text.terminated_cons]
    rwa [Text.LineEnd.text, List.append_assoc, List.singleton_append] at hline

/-- A listing does not look like an array. -/
theorem head?_trimStart_of_isListing (h : IsListing findings text) :
    (Text.trimStart text).head? ≠ some '[' := by
  have hbrace (finding : Finding) :
      (Text.trimStart (Json.compactChars finding.toJson)).head? = some '{' := by
    rw [trimStart_compactChars]
    rfl
  induction h with
  | lastBlank hline => simp [Text.trimStart_of_blank hline.forall_isBlank]
  | last finding => simp [hbrace]
  | @blank findings line text hline lineEnd hend h ih =>
    have hblank : ∀ c ∈ lineEnd.text, Text.isBlank c = true := by
      cases lineEnd <;> exact Text.isBlankText_iff.mp (by decide)
    rwa [List.append_assoc, Text.trimStart_append_of_blank hline.forall_isBlank,
      Text.trimStart_append_of_blank hblank]
  | line finding lineEnd hend h ih =>
    rw [List.append_assoc, Text.head?_trimStart_append, hbrace]
    simp

theorem holdFindings_cons_compactChars (finding : Finding) {lines : List (List Char)}
    (h : HoldFindings lines findings) :
    HoldFindings (Json.compactChars finding.toJson :: lines) (finding :: findings) :=
  (holdFindings_cons_iff finding.isBlankText_compactChars).mpr
    ⟨finding, findings, finding.ofLine_compactChars, h, rfl⟩

/-- **The lines of a listing hold its findings.** -/
theorem holdFindings_of_isListing (h : IsListing findings text) :
    HoldFindings (Text.lines text) findings := by
  induction h with
  | @lastBlank line hline =>
    by_cases hempty : line = []
    · subst hempty
      exact .nil
    · rw [Text.lines_of_not_mem hempty hline.not_mem]
      exact (holdFindings_cons_of_blank hline.isBlankText).mpr .nil
  | last finding =>
    have hempty : Json.compactChars finding.toJson ≠ [] := List.cons_ne_nil _ _
    rw [Text.lines_of_not_mem hempty (Text.not_mem_of_isUnbroken finding.isUnbroken_compactChars)]
    exact finding.holdFindings_cons_compactChars .nil
  | @blank findings line text hline lineEnd hend h ih =>
    obtain ⟨read, hread, hlines⟩ := Text.lines_append_lineEnd hline.not_mem hend text
    have hblank : Text.isBlankText read = true := by
      rcases hread with rfl | rfl
      · exact hline.isBlankText
      · exact Text.isBlankText_withoutReturn hline.forall_isBlank
    rw [hlines]
    exact (holdFindings_cons_of_blank hblank).mpr ih
  | @line finding lineEnd hend findings text h ih =>
    have hunbroken := finding.isUnbroken_compactChars
    obtain ⟨read, hread, hlines⟩ :=
      Text.lines_append_lineEnd (Text.not_mem_of_isUnbroken hunbroken) hend text
    rw [Text.withoutReturn_of_isUnbroken hunbroken, or_self] at hread
    rw [hlines, hread]
    exact finding.holdFindings_cons_compactChars ih

theorem listOfText_of_isListing (h : IsListing findings text) :
    listOfText (String.ofList text) = .ok findings := by
  have hbrace : (Text.trimStart (String.ofList text).toList).head? ≠ some '[' := by
    rw [String.toList_ofList]
    exact head?_trimStart_of_isListing h
  rw [listOfText_of_lines hbrace, String.toList_ofList]
  exact listOfLines_of_holdFindings (holdFindings_of_isListing h) 1

/-! ## Arrays -/

/-- **An array of findings is read back**, in every spelling and with anything blank in front. -/
theorem listOfText_of_spells {front back : List Char}
    (hfront : ∀ c ∈ front, Text.isBlank c = true) (hback : Json.IsGap back)
    (hbracket : text.head? = some '[')
    (h : Json.Spells text (Json.tokensOf (.array (findings.map toJson)))) :
    listOfText (String.ofList (front ++ (text ++ back))) = .ok findings := by
  have hwritable := Json.isWritable_array_map isWritable_toJson findings
  obtain ⟨rest, hrest⟩ := List.head?_eq_some_iff.mp hbracket
  have htrim : Text.trimStart (front ++ (text ++ back)) = text ++ back := by
    rw [Text.trimStart_append_of_blank hfront, hrest, List.cons_append,
      Text.trimStart_cons_of_not_blank (by decide)]
  have hhead : (text ++ back).head? = some '[' := by
    rw [hrest]
    rfl
  have hread : listOfArray (text ++ back) = .ok findings := by
    rw [listOfArray, Json.ofText_of_spells hwritable h hback]
    exact Json.toListOf_array_map ofJson_toJson findings
  simp [listOfText, htrim, hhead, hread, Except.mapError]

/-- **A list of findings is read back from both encodings**, whatever texts the findings hold. -/
theorem listOfText_written (findings : List Finding) :
    let array := Json.array (findings.map toJson)
    (∀ front back, (∀ c ∈ front, Text.isBlank c = true) → Json.IsGap back →
        listOfText (String.ofList (front ++ (Json.compactChars array ++ back))) = .ok findings ∧
          listOfText (String.ofList (front ++ (Json.prettyChars 0 array ++ back))) =
            .ok findings) ∧
      ∀ text, IsListing findings text → listOfText (String.ofList text) = .ok findings := by
  intro array
  have hwritable : Json.IsWritable array := Json.isWritable_array_map isWritable_toJson findings
  refine ⟨fun front back hfront hback => ⟨?_, ?_⟩, fun text => listOfText_of_isListing⟩
  · exact listOfText_of_spells hfront hback rfl (Json.spells_compactChars hwritable)
  · have hbracket : (Json.prettyChars 0 array).head? = some '[' := by
      rw [Json.prettyChars, Json.bracketed]
      split <;> rfl
    exact listOfText_of_spells hfront hback hbracket (Json.spells_prettyChars hwritable 0)

/-- Texts that hold line breaks and brackets move no border between the findings. -/
theorem listOfText_written_line_breaks :
    let first : Finding := { id := "memleak", symbolText := "a\nb\n", message := "[\r\n" }
    let second : Finding := { id := "]", file := "\x7b\x7d\n" }
    let listing := " \t\r\n\n".toList ++
      (Json.compactChars first.toJson ++ ("\r\n\r\n".toList ++ Json.compactChars second.toJson))
    let array := Json.compactChars (.array [first.toJson, second.toJson])
    IsListing [first, second] listing ∧ (∀ c ∈ "\n\u00a0".toList, Text.isBlank c = true) ∧
      Json.IsGap ['\n'] ∧ listOfText (String.ofList listing) = .ok [first, second] ∧
      listOfText (String.ofList ("\n\u00a0".toList ++ (array ++ ['\n']))) = .ok [first, second] := by
  intro first second listing array
  have hlisting : IsListing [first, second] listing := by
    have hempty : Text.IsBlankLine [] := ⟨by decide, by decide⟩
    have hblank : Text.IsBlankLine " \t".toList := ⟨by decide, by decide⟩
    have hbetween : IsListing [second] ("\r\n".toList ++ Json.compactChars second.toJson) :=
      .blank hempty .both (by decide) (.last second)
    have hlines := IsListing.line first .both (by decide) hbetween
    rw [List.append_assoc] at hlines
    exact .blank hblank .both (by decide) (.blank hempty .lineFeed (by decide) hlines)
  have hfront : ∀ c ∈ "\n\u00a0".toList, Text.isBlank c = true :=
    Text.isBlankText_iff.mp (by decide)
  have hback : Json.IsGap ['\n'] := by simp [Json.IsGap, Json.isSpace]
  obtain ⟨harrays, hlistings⟩ := listOfText_written [first, second]
  exact ⟨hlisting, hfront, hback, hlistings listing hlisting, (harrays _ _ hfront hback).1⟩

end FindingFilter.Finding
