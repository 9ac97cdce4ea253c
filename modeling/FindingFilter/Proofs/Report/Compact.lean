import FindingFilter.Finding.Reading
import FindingFilter.Proofs.Filter.Repetition
import FindingFilter.Proofs.Rule.Check
import FindingFilter.Proofs.Text.LineFeeds
import FindingFilter.Proofs.Text.LineNumber
import FindingFilter.Report.Format

/-!
# Reports — the lines of the compact form

The compact form writes an entry for each finding, for each unmatched rule, and for the summary, and
a line feed behind each. The texts of findings and rules are written as they are, so an entry takes a
line of its own only if no line feed is in them (`compact_apply_lines`). The summary always does, and
it is the last line: its texts are fixed and its numbers are numerals, from which the three counts
can be told (`summary_eq_summaryOf_iff`).
-/

namespace FindingFilter

/-! ## Line feeds in entries -/

theorem Text.count_lineFeed_toString (n : Nat) : (toString n).toList.count '\n' = 0 :=
  List.count_eq_zero.mpr (not_mem_of_isUnbroken (isUnbroken_toString n))

/-- The line feeds in the texts that are printed of a finding. -/
def Finding.lineFeeds (finding : Finding) : Nat :=
  finding.file.toList.count '\n' + finding.id.toList.count '\n' +
    finding.message.toList.count '\n'

/-- A finding with a line feed in one of the texts that are printed. -/
def Finding.IsBroken (finding : Finding) : Prop :=
  '\n' ∈ finding.file.toList ∨ '\n' ∈ finding.id.toList ∨ '\n' ∈ finding.message.toList

theorem Finding.lineFeeds_eq_zero_iff {finding : Finding} :
    finding.lineFeeds = 0 ↔ ¬ finding.IsBroken := by
  simp only [lineFeeds, IsBroken, Nat.add_eq_zero_iff, List.count_eq_zero, not_or, and_assoc]

theorem Finding.count_display (finding : Finding) :
    finding.display.toList.count '\n' = finding.lineFeeds := by
  have hcolon : ":".toList.count '\n' = 0 := by decide
  have hopen : ": [".toList.count '\n' = 0 := by decide
  have hclose : "] ".toList.count '\n' = 0 := by decide
  simp only [display, lineFeeds, String.toList_append, List.count_append,
    Text.count_lineFeed_toString, hcolon, hopen, hclose, Nat.add_zero]

namespace Report

theorem count_unmatchedLine (rule : Rule) :
    (unmatchedLine rule).toList.count '\n' =
      rule.file.toList.count '\n' + rule.id.toList.count '\n' := by
  have hfile : (if rule.file.isEmpty then "*" else rule.file).toList.count '\n' =
      rule.file.toList.count '\n' := by
    split
    next hempty =>
      have hfile : rule.file = "" := by simpa using hempty
      rw [hfile]
      rfl
    next => rfl
  have hline : (if rule.line = 0 then "" else ":" ++ toString rule.line.toNat).toList.count '\n' =
      0 := by
    split
    next => rfl
    next => rw [String.toList_append, List.count_append, Text.count_lineFeed_toString]; rfl
  have htitle : ": information: Unmatched suppression: ".toList.count '\n' = 0 := by decide
  have hopen : " [".toList.count '\n' = 0 := by decide
  have hname : unmatchedId.toList.count '\n' = 0 := by decide
  have hclose : "]".toList.count '\n' = 0 := by decide
  simp only [unmatchedLine, String.toList_append, List.count_append, hfile, hline, htitle, hopen,
    hname, hclose, Nat.add_zero]

/-- The summary that tells these counts. -/
def summaryOf (reported suppressed unmatched : Nat) : String :=
  toString reported ++ " diagnostic(s) reported, " ++ toString suppressed ++ " suppressed, "
    ++ toString unmatched ++ " unmatched suppression(s)"

theorem toList_summaryOf (reported suppressed unmatched : Nat) :
    (summaryOf reported suppressed unmatched).toList =
      (toString reported).toList ++ (" diagnostic(s) reported, ".toList ++
        ((toString suppressed).toList ++ (" suppressed, ".toList ++
          ((toString unmatched).toList ++ " unmatched suppression(s)".toList)))) := by
  simp only [summaryOf, String.toList_append, List.append_assoc]

theorem summary_eq (report : Report) :
    report.summary =
      summaryOf report.findings.length report.suppressed.toNat report.unmatched.length := rfl

theorem count_summary (report : Report) : report.summary.toList.count '\n' = 0 := by
  have hreported : " diagnostic(s) reported, ".toList.count '\n' = 0 := by decide
  have hsuppressed : " suppressed, ".toList.count '\n' = 0 := by decide
  have hunmatched : " unmatched suppression(s)".toList.count '\n' = 0 := by decide
  simp only [summary_eq, toList_summaryOf, List.count_append, Text.count_lineFeed_toString,
    hreported, hsuppressed, hunmatched]

/-- What is written with a line feed behind it: a text for each finding, then for each unmatched
rule, and the summary. -/
def entries (report : Report) : List (List Char) :=
  report.compactLines.map String.toList

/-- The line feeds in the texts that are printed, but for the ids of rules. -/
def lineFeeds (report : Report) : Nat :=
  (report.findings.map Finding.lineFeeds).sum +
    (report.unmatched.map fun rule => rule.file.toList.count '\n').sum

/-- A report with a line feed in a text of a finding or in the file of an unmatched rule. -/
def IsBroken (report : Report) : Prop :=
  (∃ finding ∈ report.findings, finding.IsBroken) ∨
    ∃ rule ∈ report.unmatched, '\n' ∈ rule.file.toList

variable {report : Report}

theorem toList_compact (report : Report) :
    (report.render .compact).toList = Text.terminated report.entries := by
  show (String.join (report.compactLines.map (· ++ "\n"))).toList = _
  rw [String.toList_join, entries, Text.terminated, List.flatMap_map, List.flatMap_map]
  simp

theorem length_entries (report : Report) :
    report.entries.length = report.findings.length + report.unmatched.length + 1 := by
  simp [entries, compactLines, Nat.add_assoc]

theorem lineFeeds_eq_zero_iff : report.lineFeeds = 0 ↔ ¬ report.IsBroken := by
  simp only [lineFeeds, IsBroken, Nat.add_eq_zero_iff, List.sum_eq_zero_iff_forall_eq_nat,
    List.forall_mem_map, Finding.lineFeeds_eq_zero_iff, List.count_eq_zero, not_or, not_exists,
    not_and]

/-- The ids of rules hold no line feed in a report that a filter makes. -/
theorem sum_count_entries (hids : ∀ rule ∈ report.unmatched, '\n' ∉ rule.id.toList) :
    (report.entries.map (·.count '\n')).sum = report.lineFeeds := by
  have hrules : ∀ rule ∈ report.unmatched,
      (unmatchedLine rule).toList.count '\n' = rule.file.toList.count '\n' := by
    intro rule hmem
    rw [count_unmatchedLine, List.count_eq_zero.mpr (hids rule hmem), Nat.add_zero]
  simp only [entries, compactLines, lineFeeds, List.map_append, List.map_map, List.sum_append,
    Function.comp_def, Finding.count_display, List.map_congr_left hrules, List.map_cons,
    List.map_nil, count_summary, List.sum_cons, List.sum_nil, Nat.add_zero]

/-- Each entry takes a line of its own if and only if no text is broken. -/
theorem hasLines_entries_iff (hids : ∀ rule ∈ report.unmatched, '\n' ∉ rule.id.toList) :
    Text.HasLines (report.render .compact).toList report.entries ↔ ¬ report.IsBroken := by
  rw [← lineFeeds_eq_zero_iff, ← sum_count_entries hids, List.sum_eq_zero_iff_forall_eq_nat,
    List.forall_mem_map, toList_compact, Text.HasLines, and_iff_right rfl]
  simp only [List.count_eq_zero]

/-- The summary is the last line. -/
theorem getLast?_lines (report : Report) :
    (report.entries.flatMap Text.pieces).getLast? = some report.summary.toList := by
  have hsummary : Text.pieces report.summary.toList = [report.summary.toList] :=
    Text.pieces_of_not_mem (List.count_eq_zero.mp report.count_summary)
  rw [entries, compactLines, List.map_append, List.flatMap_append, List.map_singleton,
    List.flatMap_singleton, hsummary, List.getLast?_concat]

/-! ## The summary -/

/-- A numeral ends where the first blank is. -/
theorem toString_append_inj {n m : Nat} {rest other : List Char} (hrest : rest.head? = some ' ')
    (hother : other.head? = some ' ') :
    (toString n).toList ++ rest = (toString m).toList ++ other ↔ n = m ∧ rest = other := by
  have hblank (n : Nat) : ' ' ∉ (toString n).toList := by
    intro hmem
    have hdigit := Text.isDigit_of_mem_toString hmem
    cases hdigit
  obtain ⟨rest, rfl⟩ := List.head?_eq_some_iff.mp hrest
  obtain ⟨other, rfl⟩ := List.head?_eq_some_iff.mp hother
  constructor
  · intro h
    have hcut := congrArg (Text.cutFirst? ' ') h
    rw [Text.cutFirst?_append (hblank n), Text.cutFirst?_append (hblank m)] at hcut
    obtain ⟨hnumeral, hrest⟩ := Prod.mk.inj (Option.some.inj hcut)
    rw [Nat.toString_eq_ofList_toDigits, Nat.toString_eq_ofList_toDigits, String.toList_ofList,
      String.toList_ofList] at hnumeral
    have hvalue := congrArg Text.digitsValue hnumeral
    rw [Text.digitsValue_toDigits, Text.digitsValue_toDigits] at hvalue
    exact ⟨hvalue, by rw [hrest]⟩
  · rintro ⟨rfl, hrest⟩
    rw [hrest]

/-- No two triples of counts have the same summary. -/
theorem summaryOf_inj {reported suppressed unmatched reported' suppressed' unmatched' : Nat} :
    summaryOf reported suppressed unmatched = summaryOf reported' suppressed' unmatched' ↔
      reported = reported' ∧ suppressed = suppressed' ∧ unmatched = unmatched' := by
  rw [← String.toList_inj, toList_summaryOf, toList_summaryOf, toString_append_inj rfl rfl,
    List.append_cancel_left_eq, toString_append_inj rfl rfl, List.append_cancel_left_eq,
    toString_append_inj rfl rfl, and_iff_left rfl]

/-- **The summary tells the three counts of its report**, and no others. -/
theorem summary_eq_summaryOf_iff {reported suppressed unmatched : Nat} :
    report.summary = summaryOf reported suppressed unmatched ↔
      report.findings.length = reported ∧ report.suppressed.toNat = suppressed ∧
        report.unmatched.length = unmatched := by
  rw [summary_eq, summaryOf_inj]

end Report

/-! ## Reports of filters -/

namespace Filter

variable {filter : Filter} {findings : List Finding} {checked : List String}

/-- A filter names rules of its store only, and their ids have passed the check. -/
theorem check_of_mem_unmatched (h : filter.store.WellFormed) {rule : Rule}
    (hmem : rule ∈ (filter.apply findings checked).1.unmatched) : rule.check = .ok () := by
  rw [unmatched_apply_eq_told] at hmem
  obtain ⟨position, htold, hread⟩ := List.mem_filterMap.mp hmem
  obtain ⟨stored, hstored⟩ := exists_rule_of_mem_told h htold
  rw [RuleStore.ruleAt?_eq hstored] at hread
  have hcheck : stored.check = .ok () :=
    (wellFormed_apply h findings checked).check_rule stored (Array.mem_of_getElem? hstored)
  rw [← Option.some.inj hread]
  exact hcheck

theorem not_mem_id_of_mem_unmatched (h : filter.store.WellFormed) :
    ∀ rule ∈ (filter.apply findings checked).1.unmatched, '\n' ∉ rule.id.toList := by
  intro rule hrule hmem
  have hclass := Rule.class_of_mem_id (check_of_mem_unmatched h hrule) hmem
  revert hclass
  unfold Rule.IsLetter Rule.IsDigit
  decide

/-- **The lines of a report in compact form.** The text of a report that a filter makes consists of
lines in one way only: those of the findings in order, those of the unmatched rules in order, and the
summary, which is the last line and tells the three counts. Every line feed in a text of a finding or
in the file of a rule makes a line more. So there is one line for each finding, one for each rule and
the summary if and only if there are no such line feeds. -/
theorem compact_apply_lines (h : filter.store.Reachable) (findings : List Finding)
    (checked : List String) :
    let report := (filter.apply findings checked).1
    let lines := report.entries.flatMap Text.pieces
    (∀ others, Text.HasLines (report.render .compact).toList others ↔ others = lines) ∧
      lines.length =
        report.findings.length + report.unmatched.length + 1 + report.lineFeeds ∧
      lines.getLast? = some report.summary.toList ∧
      (∀ reported suppressed unmatched : Nat,
        report.summary = Report.summaryOf reported suppressed unmatched ↔
          report.findings.length = reported ∧ report.suppressed.toNat = suppressed ∧
            report.unmatched.length = unmatched) ∧
      (Text.HasLines (report.render .compact).toList report.entries ↔ ¬ report.IsBroken) ∧
      (lines.length = report.findings.length + report.unmatched.length + 1 ↔
        ¬ report.IsBroken) := by
  intro report lines
  have hids : ∀ rule ∈ report.unmatched, '\n' ∉ rule.id.toList :=
    not_mem_id_of_mem_unmatched h.wellFormed
  have hlength : lines.length =
      report.findings.length + report.unmatched.length + 1 + report.lineFeeds := by
    rw [Text.length_flatMap_pieces, Report.length_entries, Report.sum_count_entries hids]
  refine ⟨fun others => ?_, hlength, report.getLast?_lines,
    fun _ _ _ => Report.summary_eq_summaryOf_iff, Report.hasLines_entries_iff hids, ?_⟩
  · rw [Report.toList_compact]
    exact Text.hasLines_terminated_iff
  · rw [hlength, ← Report.lineFeeds_eq_zero_iff]
    omega

/-- A line feed in a message makes a fifth line of the entries for two rules, a finding and the
summary. -/
theorem compact_apply_lines_five :
    let store := (RuleStore.empty .literal).perform (.addText "memleak\nuninitvar:b.c:4")
    let filter := Filter.ofStore store
    let finding : Finding :=
      { id := "nullPointer", file := "a.c", line := 12, message := "pointer p\nis null" }
    let report := (filter.apply [finding] ["b.c"]).1
    filter.store.Reachable ∧ report.findings = [finding] ∧
      report.unmatched =
        [{ id := "uninitvar", file := "b.c", line := 4 }, { id := "memleak" }] ∧
      (report.entries.flatMap Text.pieces).length = 5 ∧
      ¬ Text.HasLines (report.render .compact).toList report.entries := by
  intro store filter finding report
  have hstore : store.Reachable := (RuleStore.Reachable.empty .literal).perform _
  have hafter : (filter.apply [finding] ["b.c"]).2.store.WellFormed :=
    wellFormed_apply hstore.wellFormed [finding] ["b.c"]
  have hfindings : report.findings = [finding] := by decide +kernel
  have hunmatched : report.unmatched =
      [{ id := "uninitvar", file := "b.c", line := 4 }, { id := "memleak" }] := by
    have hreports : filter.reportsUnmatched = true := rfl
    have htold : filter.told [finding] ["b.c"] = [1, 0] := by
      rw [told, if_pos hreports, reported, idlePositions, hafter.idleAcross_eq_where]
      simp only [hafter.idleIn_eq_where]
      decide +kernel
    show (filter.apply [finding] ["b.c"]).1.unmatched = _
    rw [unmatched_apply_eq_told, htold]
    decide +kernel
  obtain ⟨-, hlength, -, -, hentries, -⟩ :=
    @compact_apply_lines filter hstore [finding] ["b.c"]
  refine ⟨hstore, hfindings, hunmatched, ?_, ?_⟩
  · rw [hlength]
    show report.findings.length + report.unmatched.length + 1 + report.lineFeeds = 5
    rw [Report.lineFeeds, hfindings, hunmatched]
    decide
  · have hmem : finding ∈ report.findings := by
      rw [hfindings]
      exact List.mem_singleton_self finding
    have hbroken : finding.IsBroken := .inr (.inr (by decide))
    exact fun hlines => hentries.mp hlines (.inl ⟨finding, hmem, hbroken⟩)

/-- **A finding that looks like two.** Its message is read from JSON with a line feed in it, and what
follows the line feed is printed on a line of its own, which is the line of another finding. -/
theorem compact_apply_forged_line :
    let text := "[\x7b\"error_id\":\"nullPointer\",\"file_name\":\"a.c\",\"line_number\":1," ++
      "\"message\":\"first\\nb.c:2: [memleak] second\"\x7d]"
    let finding : Finding :=
      { id := "nullPointer", file := "a.c", line := 1, message := "first\nb.c:2: [memleak] second" }
    let other : Finding := { id := "memleak", file := "b.c", line := 2, message := "second" }
    let filter := Filter.ofStore (.empty .literal)
    let report := (filter.apply [finding] []).1
    filter.store.Reachable ∧ Finding.listOfText text = .ok [finding] ∧
      report.findings = [finding] ∧ report.unmatched = [] ∧
      Text.HasLines (report.render .compact).toList
        ["a.c:1: [nullPointer] first".toList, other.display.toList, report.summary.toList] ∧
      ¬ Text.HasLines (report.render .compact).toList report.entries := by
  intro text finding other filter report
  have hstore : filter.store.Reachable := RuleStore.Reachable.empty .literal
  have hafter : (filter.apply [finding] []).2.store.WellFormed :=
    wellFormed_apply hstore.wellFormed [finding] []
  have hread : Finding.listOfText text = .ok [finding] := by decide +kernel
  have hunmatched : report.unmatched = [] := by
    have hreports : filter.reportsUnmatched = true := rfl
    have htold : filter.told [finding] [] = [] := by
      rw [told, if_pos hreports, reported, idlePositions, hafter.idleAcross_eq_where]
      simp only [hafter.idleIn_eq_where]
      decide +kernel
    show (filter.apply [finding] []).1.unmatched = _
    rw [unmatched_apply_eq_told, htold]
    rfl
  have hreport : report = { findings := [finding] } := by
    have hfindings : report.findings = [finding] := by decide +kernel
    have hsuppressed : report.suppressed = 0 := by decide +kernel
    rw [← hfindings, ← hsuppressed, ← hunmatched]
  rw [hreport]
  refine ⟨hstore, hread, rfl, rfl, ⟨by decide +kernel, by decide +kernel⟩, ?_⟩
  rintro ⟨-, hfree⟩
  exact hfree finding.display.toList (by decide +kernel) (by decide +kernel)

end Filter

end FindingFilter
