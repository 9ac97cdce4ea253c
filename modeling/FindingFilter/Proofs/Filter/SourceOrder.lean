import FindingFilter.Proofs.Filter.Report
import FindingFilter.Proofs.Filter.Sources
import Mathlib.Data.List.Basic

/-!
# Filters — the order of sources

Rules may come from many sources, and the order of the sources decides which rule gets the credit for
a finding. It does not decide which findings are reported. Whether a build succeeds depends on the
entries of the plan one by one, and so does the set of rules that it loads; and a finding is covered
if some rule in that set covers it.

So what matters of a plan is which entries it has, in the configuration or on its own, and not where,
nor how often (`FilterPlan.IsWithin`). More entries can only cover more findings.
-/

namespace FindingFilter

theorem RuleStore.covers_of_subset {store other : RuleStore}
    (hmatching : other.matching = store.matching)
    (hrules : ∀ rule ∈ store.rules, rule ∈ other.rules) {finding : Finding}
    (h : store.covers finding = true) : other.covers finding = true := by
  rw [covers, Array.any_eq_true'] at h ⊢
  obtain ⟨rule, hmem, hcovers⟩ := h
  rw [hmatching]
  exact ⟨rule, hrules rule hmem, hcovers⟩

/-- A run that covers more reports fewer findings, and those in the same order. -/
theorem Filter.sublist_findings_apply {filter other : Filter}
    (hcovers : ∀ finding, filter.store.covers finding = true → other.store.covers finding = true)
    (findings : List Finding) (checked : List String) :
    (other.apply findings checked).1.findings.Sublist (filter.apply findings checked).1.findings := by
  rw [findings_apply, findings_apply]
  apply List.monotone_filter_right
  intro finding hkept
  rw [Bool.not_eq_true'] at hkept ⊢
  rw [← Bool.not_eq_true] at hkept ⊢
  exact fun hcovered => hkept (hcovers finding hcovered)

/-- Runs that cover the same report the same and count the same. -/
theorem Filter.findings_and_suppressed_apply_congr {filter other : Filter}
    (hcovers : other.store.covers = filter.store.covers) (findings : List Finding)
    (checked : List String) :
    (other.apply findings checked).1.findings = (filter.apply findings checked).1.findings ∧
      (other.apply findings checked).1.suppressed = (filter.apply findings checked).1.suppressed := by
  rw [findings_apply, findings_apply, suppressed_apply, suppressed_apply, hcovers]
  exact ⟨rfl, rfl⟩

namespace FilterPlan

/-- Every entry of the plan is one of the other plan, kind by kind, be it in its configuration or its
own. Order and repetition do not count. -/
structure IsWithin (plan other : FilterPlan) : Prop where
  lineFiles : plan.allLineFiles ⊆ other.allLineFiles
  xmlFiles : plan.allXmlFiles ⊆ other.allXmlFiles
  rules : plan.allRules ⊆ other.allRules

section IsWithin

variable {plan other : FilterPlan} {tree : FileTree} (h : plan.IsWithin other)

include h

theorem Names.of_isWithin {source : RuleSource} (hnames : plan.Names tree source) :
    other.Names tree source := by
  cases hnames with
  | lineFile hpattern hexpand hpath => exact .lineFile (h.lineFiles hpattern) hexpand hpath
  | xmlFile hpattern hexpand hpath => exact .xmlFile (h.xmlFiles hpattern) hexpand hpath
  | inline hline => exact .inline (h.rules hline)

/-- If a plan can be built, so can every plan with fewer entries, as each entry of it can be read. -/
theorem isOk_build_of_isWithin (hother : ∃ filter, other.build tree = .ok filter) :
    ∃ filter, plan.build tree = .ok filter := by
  rw [isOk_build_iff] at hother ⊢
  obtain ⟨⟨hline, hxml⟩, hgives⟩ := hother
  refine ⟨⟨?_, ?_⟩, ?_⟩
  · exact fun pattern hpattern => hline pattern (h.lineFiles hpattern)
  · exact fun pattern hpattern => hxml pattern (h.xmlFiles hpattern)
  · exact fun source hnames => hgives source (hnames.of_isWithin h)

/-- What the smaller plan covers, the larger one covers. -/
theorem covers_of_isWithin (hmatching : other.matching = plan.matching) {filter otherFilter : Filter}
    (hbuild : plan.build tree = .ok filter) (hother : other.build tree = .ok otherFilter)
    {finding : Finding} (hcovers : filter.store.covers finding = true) :
    otherFilter.store.covers finding = true := by
  have hrules : ∀ rule ∈ filter.store.rules, rule ∈ otherFilter.store.rules := by
    intro rule hmem
    rw [mem_rules_build_iff hbuild] at hmem
    rw [mem_rules_build_iff hother]
    obtain ⟨source, hnames, hgives⟩ := hmem
    exact ⟨source, hnames.of_isWithin h, hgives⟩
  apply RuleStore.covers_of_subset _ hrules hcovers
  rw [matching_build hother, matching_build hbuild, hmatching]

end IsWithin

/-- **Neither the order of the sources nor their repetition decides what is reported.** Take two
plans that compare files in the same way. If each has the entries of the other, in whatever order,
however often, and no matter which of them stand in the configuration, then one can be built if the
other can, and both report the same findings and suppress the same number. If only the first plan is
within the second, as when its sources are a sublist, the second reports some of what the first
reports, in the same order. -/
theorem build_of_isWithin (tree : FileTree) {plan other : FilterPlan}
    (hmatching : other.matching = plan.matching) (h : plan.IsWithin other) :
    (other.IsWithin plan →
      ((∃ filter, plan.build tree = .ok filter) ↔ ∃ filter, other.build tree = .ok filter) ∧
      ∀ filter otherFilter, plan.build tree = .ok filter → other.build tree = .ok otherFilter →
        ∀ findings checked,
          (otherFilter.apply findings checked).1.findings =
              (filter.apply findings checked).1.findings ∧
            (otherFilter.apply findings checked).1.suppressed =
              (filter.apply findings checked).1.suppressed) ∧
      ∀ filter otherFilter, plan.build tree = .ok filter → other.build tree = .ok otherFilter →
        ∀ findings checked, (otherFilter.apply findings checked).1.findings.Sublist
          (filter.apply findings checked).1.findings := by
  refine ⟨fun hback => ⟨⟨?_, ?_⟩, ?_⟩, ?_⟩
  · exact isOk_build_of_isWithin hback
  · exact isOk_build_of_isWithin h
  · intro filter otherFilter hbuild hother
    apply Filter.findings_and_suppressed_apply_congr
    funext finding
    rw [Bool.eq_iff_iff]
    exact ⟨covers_of_isWithin hback hmatching.symm hother hbuild,
      covers_of_isWithin h hmatching hbuild hother⟩
  · intro filter otherFilter hbuild hother
    apply Filter.sublist_findings_apply
    exact fun finding => covers_of_isWithin h hmatching hbuild hother

/-- Two rule files and a rule, first in the configuration, then in the plan itself, one of the files
twice. -/
theorem build_of_isWithin_two_files :
    let tree : FileTree :=
      { entries :=
          [(["one.txt"], .file "leak:*.c\n".toUTF8), (["two.txt"], .file "null\nleak:b.c".toUTF8)] }
    let plan : FilterPlan :=
      { config :=
          { sources := { files := ["one.txt", "two.txt"], rules := ["dead"], matching := .glob } } }
    let other : FilterPlan :=
      { lineFiles := ["two.txt", "one.txt", "two.txt"], rules := ["dead"], matching? := some .glob }
    other.matching = plan.matching ∧ plan.IsWithin other ∧ other.IsWithin plan ∧
      ∃ filter otherFilter, plan.build tree = .ok filter ∧ other.build tree = .ok otherFilter ∧
        ∀ findings checked, (otherFilter.apply findings checked).1.findings =
          (filter.apply findings checked).1.findings := by
  intro tree plan other
  have hmatching : other.matching = plan.matching := rfl
  have hwithin : plan.IsWithin other := by constructor <;> decide
  have hback : other.IsWithin plan := by constructor <;> decide
  obtain ⟨hbuilds, hreports⟩ := (build_of_isWithin tree hmatching hwithin).1 hback
  have hfilter : ∃ filter, plan.build tree = .ok filter := by
    have hsome : (plan.build tree).toOption.isSome = true := by decide +kernel
    cases hbuild : plan.build tree with
    | error cause => rw [hbuild] at hsome; cases hsome
    | ok filter => exact ⟨filter, rfl⟩
  obtain ⟨filter, hbuild⟩ := hfilter
  obtain ⟨otherFilter, hother⟩ := hbuilds.mp ⟨filter, hbuild⟩
  exact ⟨hmatching, hwithin, hback, filter, otherFilter, hbuild, hother, fun findings checked =>
    (hreports filter otherFilter hbuild hother findings checked).1⟩

end FilterPlan

end FindingFilter
