import FindingFilter.Command.Check
import FindingFilter.Proofs.Filter.Report
import FindingFilter.Proofs.Filter.Sources
import FindingFilter.Proofs.Report.JsonForm

/-!
# Checks — the verdict and the report

A check asks two kinds of things: what is to be checked against which rules, and how the result is
to look. The verdict of a run is which findings are left and how many are not, or the failure that
kept the run from telling. It is computed without a look at the second kind (`verdict`), and the
report has no say in it (`map_verdict_report`).

* **`verdict_of_hasSameInputs`** — requests for the same findings and the same rules have the same
  verdict;
* **`exitCode_run`**, **`failure_run`** — how a run ends is said by its verdict alone;
* **`exitCode_run_iff`** — without a failure the exit code says whether there is a finding that no
  rule covers;
* **`run_of_hasSameInputs`** — so runs of such requests end alike, and their JSON reports hold the
  same findings and the same number of suppressed ones.
-/

namespace FindingFilter

/-- What a run finds out about its findings: those that are left, and the number of the others. -/
structure Verdict where
  kept : List Finding
  suppressed : UInt64
  deriving DecidableEq, Repr

def Report.verdict (report : Report) : Verdict where
  kept := report.findings
  suppressed := report.suppressed

/-- The verdict of a store on findings. -/
def RuleStore.verdict (store : RuleStore) (findings : List Finding) : Verdict where
  kept := findings.filter fun finding => !store.covers finding
  suppressed := .ofNat (findings.countP store.covers)

theorem RuleStore.covers_eq_false_iff {store : RuleStore} {finding : Finding} :
    store.covers finding = false ↔
      ∀ rule ∈ store.rules, rule.covers store.matching finding = false := by
  rw [RuleStore.covers, Array.any_eq_false']
  simp only [Bool.not_eq_true]

/-- Nothing is left if no finding is covered by no rule. -/
theorem RuleStore.isEmpty_kept_iff {store : RuleStore} {findings : List Finding} :
    (store.verdict findings).kept.isEmpty = true ↔
      ¬ ∃ finding ∈ findings, ∀ rule ∈ store.rules, rule.covers store.matching finding = false := by
  rw [RuleStore.verdict, List.isEmpty_iff, List.filter_eq_nil_iff]
  simp only [← covers_eq_false_iff, Bool.not_eq_true', Bool.not_eq_false, not_exists, not_and]

theorem Filter.verdict_apply (filter : Filter) (findings : List Finding) (checked : List String) :
    (filter.apply findings checked).1.verdict = filter.store.verdict findings := by
  rw [Report.verdict, findings_apply, suppressed_apply, RuleStore.verdict]

namespace FilterPlan

/-- The settings about idle rules have no part in loading the rules. -/
theorem loadStore_of_options (plan : FilterPlan) (tree : FileTree)
    (unusedFunctions? reportsUnmatched? : Option Bool) :
    loadStore { plan with unusedFunctions?, reportsUnmatched? } tree = plan.loadStore tree :=
  rfl

end FilterPlan

namespace CheckRequest

/-- Both requests are about the same findings and name the same sources of rules. They may differ in
everything else: the files that were checked, whether unused functions were looked for, whether idle
rules are reported, and in which form. -/
structure HasSameInputs (request other : CheckRequest) : Prop where
  input_eq : other.input = request.input
  sources_eq : other.sources = request.sources

/-- The verdict on the findings of a request, from what two requests with the same inputs share. -/
def verdict (request : CheckRequest) (environment : Environment) : Except Failure Verdict := do
  let plan ← environment.plan request.sources
  let store ← (plan.loadStore environment.tree).mapError .rules
  let findings ← request.readFindings environment
  return store.verdict findings

variable {request other : CheckRequest} {environment : Environment}

theorem verdict_of_hasSameInputs (h : request.HasSameInputs other) (environment : Environment) :
    other.verdict environment = request.verdict environment := by
  have hread : other.readFindings environment = request.readFindings environment := by
    rw [readFindings, readFindings, readInput, readInput, findingsInput, findingsInput, h.input_eq]
  rw [verdict, verdict, hread, h.sources_eq]

/-- **The verdict that a report holds** does not depend on how the report is to look. -/
theorem map_verdict_report (request : CheckRequest) (environment : Environment) :
    (request.report environment).map Report.verdict = request.verdict environment := by
  rw [report, verdict, CheckRequest.plan]
  cases environment.plan request.sources with
  | error failure => rfl
  | ok plan =>
    -- The settings of the request change the filter, but not the store that is loaded into it.
    simp only [bind, Except.bind, pure, Except.pure, Environment.buildFilter,
      FilterPlan.build_eq_map, FilterPlan.loadStore_of_options]
    cases plan.loadStore environment.tree with
    | error cause => rfl
    | ok store =>
      simp only [Except.mapError, Except.map]
      cases request.readFindings environment with
      | error failure => rfl
      | ok findings => simp only [Filter.verdict_apply]

/-! ## How a run ends -/

theorem exitCode_run (request : CheckRequest) (environment : Environment) :
    (request.run environment).exitCode =
      match request.verdict environment with
      | .error _ => 1
      | .ok verdict => if verdict.kept.isEmpty then 0 else 1 := by
  rw [run, ← map_verdict_report]
  cases request.report environment with
  | error failure => rfl
  | ok report =>
    have hcode : (if report.hasFindings then 1 else 0) =
        if report.findings.isEmpty then 0 else 1 := by
      rw [Report.hasFindings]
      cases report.findings.isEmpty <;> rfl
    exact hcode

theorem failure_run (request : CheckRequest) (environment : Environment) :
    (request.run environment).failure =
      match request.verdict environment with
      | .error failure => some failure
      | .ok _ => none := by
  rw [run, ← map_verdict_report]
  cases request.report environment with
  | error failure => rfl
  | ok report => rfl

/-- A run without a failure has made a report, and prints it. -/
theorem exists_report_of_failure_run (h : (request.run environment).failure = none) :
    ∃ report, request.report environment = .ok report ∧
      (request.run environment).output = report.render request.format ∧
      request.verdict environment = .ok report.verdict := by
  rw [run] at h ⊢
  rw [← map_verdict_report]
  cases hreport : request.report environment with
  | error failure =>
    rw [hreport] at h
    cases h
  | ok report => exact ⟨report, rfl, rfl, rfl⟩

/-- What a report was made of. -/
theorem report_eq_ok_iff {report : Report} :
    request.report environment = .ok report ↔
      ∃ plan filter findings, request.plan environment = .ok plan ∧
        plan.build environment.tree = .ok filter ∧
        request.readFindings environment = .ok findings ∧
        (filter.apply findings request.checkedFiles).1 = report := by
  simp only [CheckRequest.report, bind_eq_ok_iff, Environment.buildFilter, mapError_eq_ok_iff]
  constructor
  · rintro ⟨plan, hplan, filter, hbuild, findings, hread, hreport⟩
    exact ⟨plan, filter, findings, hplan, hbuild, hread, Except.ok.inj hreport⟩
  · rintro ⟨plan, filter, findings, hplan, hbuild, hread, rfl⟩
    exact ⟨plan, hplan, filter, hbuild, findings, hread, rfl⟩

/-- **The exit code of a run without a failure** is 1 if a finding is covered by no rule, and else 0,
however many rules are idle. -/
theorem exitCode_run_iff {plan : FilterPlan} {filter : Filter} {findings : List Finding}
    (hplan : request.plan environment = .ok plan)
    (hbuild : plan.build environment.tree = .ok filter)
    (hread : request.readFindings environment = .ok findings) :
    let isKept := ∃ finding ∈ findings, ∀ rule ∈ filter.store.rules,
      rule.covers filter.store.matching finding = false
    ((request.run environment).exitCode = 1 ↔ isKept) ∧
      ((request.run environment).exitCode = 0 ↔ ¬ isKept) := by
  intro isKept
  have hreport : request.report environment =
      .ok (filter.apply findings request.checkedFiles).1 :=
    report_eq_ok_iff.mpr ⟨plan, filter, findings, hplan, hbuild, hread, rfl⟩
  have hcode : (request.run environment).exitCode =
      if (filter.store.verdict findings).kept.isEmpty then 0 else 1 := by
    rw [exitCode_run, ← map_verdict_report, hreport]
    simp only [Except.map, Filter.verdict_apply]
  have hkept : (filter.store.verdict findings).kept.isEmpty = true ↔ ¬ isKept :=
    RuleStore.isEmpty_kept_iff
  by_cases hempty : (filter.store.verdict findings).kept.isEmpty = true
  · rw [hcode, if_pos hempty]
    exact ⟨iff_of_false (by decide) (hkept.mp hempty), iff_of_true rfl (hkept.mp hempty)⟩
  · rw [hcode, if_neg hempty]
    have hisKept : isKept := not_not.mp (mt hkept.mpr hempty)
    exact ⟨iff_of_true rfl hisKept, iff_of_false (by decide) (not_not_intro hisKept)⟩

/-! ## Two runs -/

/-- **How a report is to look has no influence on the verdict.** Runs of requests for the same
findings and the same rules end with the same exit code and the same failure, if there is one. If
there is none, the exit code is 1 if a finding is covered by no rule that was loaded, and else 0; and
if both reports are printed as JSON, they hold the same findings and suppress the same number. -/
theorem run_of_hasSameInputs (h : request.HasSameInputs other) (environment : Environment) :
    let outcome := request.run environment
    let otherOutcome := other.run environment
    otherOutcome.exitCode = outcome.exitCode ∧ otherOutcome.failure = outcome.failure ∧
      (outcome.failure = none →
        (∃ plan filter findings, request.plan environment = .ok plan ∧
          plan.build environment.tree = .ok filter ∧
          request.readFindings environment = .ok findings ∧
          let isKept := ∃ finding ∈ findings, ∀ rule ∈ filter.store.rules,
            rule.covers filter.store.matching finding = false
          (outcome.exitCode = 1 ↔ isKept) ∧ (outcome.exitCode = 0 ↔ ¬ isKept)) ∧
        (request.format = .json → other.format = .json →
          ∃ report otherReport, Report.ofJsonText outcome.output = .ok report ∧
            Report.ofJsonText otherOutcome.output = .ok otherReport ∧
            otherReport.findings = report.findings ∧
            otherReport.suppressed = report.suppressed)) := by
  intro outcome otherOutcome
  have hverdict := verdict_of_hasSameInputs h environment
  have hfailure : otherOutcome.failure = outcome.failure := by
    rw [failure_run, failure_run, hverdict]
  refine ⟨?_, hfailure, fun hnone => ⟨?_, fun hjson hotherJson => ?_⟩⟩
  · rw [exitCode_run, exitCode_run, hverdict]
  · obtain ⟨report, hreport, -, -⟩ := exists_report_of_failure_run hnone
    obtain ⟨plan, filter, findings, hplan, hbuild, hread, -⟩ := report_eq_ok_iff.mp hreport
    exact ⟨plan, filter, findings, hplan, hbuild, hread, exitCode_run_iff hplan hbuild hread⟩
  · -- Both reports are read back from what is printed, and hold the one verdict.
    obtain ⟨report, -, hprinted, hreport⟩ := exists_report_of_failure_run hnone
    obtain ⟨otherReport, -, hotherPrinted, hotherReport⟩ :=
      exists_report_of_failure_run (hfailure.trans hnone)
    have hsame : otherReport.verdict = report.verdict := by
      rw [hotherReport, hreport] at hverdict
      exact Except.ok.inj hverdict
    refine ⟨report, otherReport, ?_, ?_, ?_, ?_⟩
    · rw [hprinted, hjson]
      exact report.ofJsonText_pretty.1
    · rw [hotherPrinted, hotherJson]
      exact otherReport.ofJsonText_pretty.1
    · exact congrArg Verdict.kept hsame
    · exact congrArg Verdict.suppressed hsame

/-- One finding is covered and one is not; only the first of the runs is asked about the idle rule. -/
theorem run_of_hasSameInputs_idle_rule :
    let environment : Environment :=
      { tree := { entries := [(["rules.txt"], .file "memleak\nnullPointer:b.c\n".toUTF8)] }
        standardInput := "[[\"memleak\"], [\"uninitvar\"]]".toUTF8 }
    let request : CheckRequest :=
      { input := "-", sources := { lineFiles := ["rules.txt"] }, checkedFiles := ["b.c"],
        format := .json }
    let other := { request with
      checkedFiles := [], unusedFunctions := true, noUnmatched := true }
    request.HasSameInputs other ∧ (request.run environment).failure = none ∧
      (request.run environment).exitCode = 1 ∧ (other.run environment).exitCode = 1 ∧
      ∃ report otherReport,
        Report.ofJsonText (request.run environment).output = .ok report ∧
          Report.ofJsonText (other.run environment).output = .ok otherReport ∧
          otherReport.findings = report.findings ∧ otherReport.suppressed = report.suppressed := by
  intro environment request other
  have hinputs : request.HasSameInputs other := ⟨rfl, rfl⟩
  have hfailure : (request.run environment).failure = none := by decide +kernel
  have hcode : (request.run environment).exitCode = 1 := by decide +kernel
  obtain ⟨hsame, -, hreports⟩ := run_of_hasSameInputs hinputs environment
  exact ⟨hinputs, hfailure, hcode, hsame.trans hcode, (hreports hfailure).2 rfl rfl⟩

end CheckRequest

end FindingFilter
