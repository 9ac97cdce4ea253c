import FindingFilter.Proofs.Json.Record
import FindingFilter.Report.Format

/-!
# Reports in JSON — nothing is lost

A report that is printed as JSON is read back as it was. The reader of each record is the inverse of
its writer, for whatever texts and numbers the record holds, and what the writers make is written in
a form that is read back.

* **`Rule.ofJson_toJson`**, **`Finding.ofJson_toJson`**, **`Report.ofJson_toJson`** — a record that is
  made into a value is read from the value;
* **`Report.isWritable_toJson`** — the value of a report is one that both written forms keep;
* **`Report.ofJsonText_render`** — a report is read back from the text that is printed for it, and
  from the pretty and the compact form of its value, though the message of a finding is left out of
  the text exactly if it is empty.

The message is the last field of a finding, so leaving it out leaves the fields in front of it where
they are, and its default is the empty text.
-/

namespace FindingFilter

/-! ## Rules -/

theorem Rule.ofJson_toJson (rule : Rule) : Rule.ofJson rule.toJson = .ok rule := by
  have hfields : Json.fields Rule.fieldNames rule.toJson =
      .ok [some (.ofString rule.id), some (.ofString rule.file), some (.ofNat rule.line.toNat),
        some (.ofString rule.symbol), some (.bool rule.matched)] :=
    @Json.fields_ofMembers_zip Rule.fieldNames
      [.ofString rule.id, .ofString rule.file, .ofNat rule.line.toNat, .ofString rule.symbol,
        .bool rule.matched] (by decide) (Nat.le_refl _)
  simp [Rule.ofJson, hfields, Json.required, Json.optional, Json.toBool, bind, Except.bind, pure,
    Except.pure]

theorem Rule.isWritable_toJson (rule : Rule) : Json.IsWritable rule.toJson := by
  refine Json.isWritable_ofMembers ?_
  simp only [List.forall_mem_cons, List.not_mem_nil, false_imp_iff, implies_true, and_true]
  exact ⟨.string _, .string _, .number _, .string _, .bool _⟩

/-! ## Findings -/

namespace Finding

/-- The values that a finding is written with, in the order of its fields. -/
def fieldValues (finding : Finding) : List Json :=
  [.ofString finding.id, .ofString finding.file, .ofNat finding.line.toNat,
    .ofString finding.symbolText] ++
  if finding.message = "" then [] else [.ofString finding.message]

theorem toJson_eq (finding : Finding) :
    finding.toJson = .ofMembers (fieldNames.zip finding.fieldValues) := by
  by_cases hmessage : finding.message = ""
  · simp [toJson, fieldValues, fieldNames, hmessage]
  · simp [toJson, fieldValues, fieldNames, hmessage]

/-- The message is found only if there is one, and the other fields always are. -/
theorem fields_toJson (finding : Finding) :
    Json.fields fieldNames finding.toJson =
      .ok [some (.ofString finding.id), some (.ofString finding.file),
        some (.ofNat finding.line.toNat), some (.ofString finding.symbolText),
        if finding.message = "" then none else some (.ofString finding.message)] := by
  have hlength : finding.fieldValues.length ≤ fieldNames.length := by
    rw [fieldValues]
    split <;> simp [fieldNames]
  rw [toJson_eq, Json.fields_ofMembers_zip (by decide) hlength, fieldValues]
  split <;> rfl

theorem ofJson_toJson (finding : Finding) : ofJson finding.toJson = .ok finding := by
  obtain ⟨id, file, line, symbolText, message⟩ := finding
  by_cases hmessage : message = ""
  · -- The field is absent, and its default is the text that was left out.
    simp [ofJson, fields_toJson, hmessage, Json.required, Json.optional, bind, Except.bind, pure,
      Except.pure]
  · simp [ofJson, fields_toJson, hmessage, Json.required, Json.optional, bind, Except.bind, pure,
      Except.pure]

theorem isWritable_toJson (finding : Finding) : Json.IsWritable finding.toJson := by
  have hvalues : ∀ value ∈ finding.fieldValues, Json.IsWritable value := by
    intro value hmem
    rcases List.mem_append.mp hmem with hmem | hmem
    · simp only [List.mem_cons, List.not_mem_nil, or_false] at hmem
      rcases hmem with rfl | rfl | rfl | rfl
      · exact .string _
      · exact .string _
      · exact .number _
      · exact .string _
    · split at hmem
      · exact absurd hmem List.not_mem_nil
      · exact List.mem_singleton.mp hmem ▸ .string _
  rw [toJson_eq]
  exact Json.isWritable_ofMembers fun entry hmem => hvalues entry.2 (List.of_mem_zip hmem).2

end Finding

/-! ## Reports -/

namespace Report

theorem ofJson_toJson (report : Report) : ofJson report.toJson = .ok report := by
  have hfields : Json.fields fieldNames report.toJson =
      .ok [some (.array (report.findings.map Finding.toJson)),
        some (.ofNat report.suppressed.toNat), some (.array (report.unmatched.map Rule.toJson))] :=
    @Json.fields_ofMembers_zip fieldNames
      [.array (report.findings.map Finding.toJson), .ofNat report.suppressed.toNat,
        .array (report.unmatched.map Rule.toJson)] (by decide) (Nat.le_refl _)
  simp [ofJson, hfields, Json.required, Json.toListOf_array_map Finding.ofJson_toJson,
    Json.toListOf_array_map Rule.ofJson_toJson, bind, Except.bind, pure, Except.pure]

theorem isWritable_toJson (report : Report) : Json.IsWritable report.toJson := by
  refine Json.isWritable_ofMembers ?_
  simp only [List.forall_mem_cons, List.not_mem_nil, false_imp_iff, implies_true, and_true]
  exact ⟨Json.isWritable_array_map Finding.isWritable_toJson _, .number _,
    Json.isWritable_array_map Rule.isWritable_toJson _⟩

/-- The report that a JSON text stands for. -/
def ofJsonText (text : String) : Except Json.Error Report := do
  ofJson (← Json.ofText text)

/-- What is printed as JSON is read back, with the line feed behind it or without. -/
theorem ofJsonText_pretty (report : Report) :
    ofJsonText (report.render .json) = .ok report ∧
    ofJsonText report.toJson.pretty = .ok report := by
  obtain ⟨hpretty, hline⟩ := Json.ofText_pretty report.isWritable_toJson
  constructor
  · rw [ofJsonText, render, prettyJson, hline]
    exact report.ofJson_toJson
  · rw [ofJsonText, hpretty]
    exact report.ofJson_toJson

theorem ofJsonText_compact (report : Report) :
    ofJsonText report.toJson.compact = .ok report := by
  rw [ofJsonText, Json.ofText_compact report.isWritable_toJson]
  exact report.ofJson_toJson

end Report

/-! ## The omitted message -/

/-- The message is a member of what is written for a finding exactly if there is one. -/
theorem Finding.mem_toJson_message_iff (finding : Finding) :
    ∃ members, finding.toJson = .object members ∧
      ((∃ value, (some "message".toList, value) ∈ members) ↔ finding.message ≠ "") := by
  refine ⟨_, rfl, ?_⟩
  by_cases hmessage : finding.message = ""
  · simp [hmessage]
  · simp [hmessage]

/-- **A report is read back from what is printed for it**, in every spelling, and so is each finding,
though a finding without a message is written without that member. -/
theorem Report.ofJsonText_render (report : Report) :
    Report.ofJsonText (report.render .json) = .ok report ∧
      Report.ofJsonText report.toJson.pretty = .ok report ∧
      Report.ofJsonText report.toJson.compact = .ok report ∧
      ∀ finding : Finding, Finding.ofJson finding.toJson = .ok finding ∧
        ∃ members, finding.toJson = .object members ∧
          ((∃ value, (some "message".toList, value) ∈ members) ↔ finding.message ≠ "") := by
  obtain ⟨hprinted, hpretty⟩ := report.ofJsonText_pretty
  refine ⟨hprinted, hpretty, report.ofJsonText_compact, fun finding => ?_⟩
  exact ⟨finding.ofJson_toJson, finding.mem_toJson_message_iff⟩

end FindingFilter
