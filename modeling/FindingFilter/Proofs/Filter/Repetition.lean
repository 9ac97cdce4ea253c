import FindingFilter.Proofs.Filter.Files
import FindingFilter.Proofs.Filter.Run
import FindingFilter.Proofs.RuleStore.Idle
import Mathlib.Data.List.Nodup
import Mathlib.Data.List.Pairwise

/-!
# Filters — when a report names a rule twice

A report asks for idle rules file by file. Each name is asked for once (`pairwise_filesOf`), but
rules are looked up under the canonical form of the name. So a rule is named twice if and only if
the run is about its file under two names (`nodup_told_iff`). Checked files are listed in canonical
form already; for two names a finding has to write a backslash, as in `told_twice`.
-/

namespace FindingFilter

/-- A run is about a file under two names, which differ in how they write the slashes. -/
def NamesTwice (checked : List String) (findings : List Finding) (file : String) : Prop :=
  ∃ name other, name ≠ other ∧ isNamed checked findings name = true ∧
    isNamed checked findings other = true ∧ Path.canonical name = file ∧ Path.canonical other = file

theorem not_namesTwice {checked : List String} {findings : List Finding}
    (hfindings : ∀ finding ∈ findings, '\\' ∉ finding.file.toList) (file : String) :
    ¬ NamesTwice checked findings file := by
  rintro ⟨name, other, hne, hname, hother, hfile, hfile'⟩
  rw [canonical_of_isNamed hfindings hname] at hfile
  rw [canonical_of_isNamed hfindings hother] at hfile'
  exact hne (hfile.trans hfile'.symm)

/-! ## What is asked for twice -/

/-- No rule is both about one file and about several. -/
theorem RuleStore.WellFormed.disjoint_idleIn_idleAcross {store : RuleStore} (h : store.WellFormed)
    (file : String) (unusedFunctions : Bool) :
    (store.idleIn file unusedFunctions).Disjoint (store.idleAcross unusedFunctions) := by
  intro position hin hacross
  obtain ⟨rule, hread, ⟨hscope, -⟩, -⟩ := h.mem_idleIn_iff.mp hin
  obtain ⟨rule', hread', hscope', -⟩ := h.mem_idleAcross_iff.mp hacross
  cases hread.symm.trans hread'
  cases hscope.symm.trans hscope'

namespace Filter

/-- Asking for several files names a rule twice if two of the files have it. -/
theorem nodup_idlePositions_iff {filter : Filter} (h : filter.store.WellFormed)
    {files : List String} (hfiles : files.Nodup) :
    (filter.idlePositions files).Nodup ↔
      ∀ name ∈ files, ∀ other ∈ files, name ≠ other →
        (filter.store.idleIn name filter.unusedFunctions).Disjoint
          (filter.store.idleIn other filter.unusedFunctions) := by
  have hdisjoint : (files.flatMap fun file =>
      filter.store.idleIn file filter.unusedFunctions).Disjoint
        (filter.store.idleAcross filter.unusedFunctions) := by
    intro position hin
    obtain ⟨file, -, hin⟩ := List.mem_flatMap.mp hin
    exact h.disjoint_idleIn_idleAcross file _ hin
  rw [idlePositions, List.nodup_append', List.nodup_flatMap]
  constructor
  · rintro ⟨⟨-, hpairwise⟩, -, -⟩ name hname other hother hne
    -- Two files share a rule in either order.
    have : Std.Symm (Function.onFun List.Disjoint fun file =>
        filter.store.idleIn file filter.unusedFunctions) := ⟨fun _ _ => List.disjoint_symm⟩
    exact hpairwise.forall hname hother hne
  · intro hall
    refine ⟨⟨?_, hfiles.pairwise_of_forall_ne hall⟩, ?_, hdisjoint⟩
    · intro file _
      exact (h.pairwise_idleIn file _).imp Nat.ne_of_lt
    · exact (h.pairwise_idleAcross _).imp Nat.ne_of_lt

/-- The files of a run name a rule twice if the run is about its file under two names. -/
theorem nodup_idlePositions_filesOf_iff {filter : Filter} (h : filter.store.WellFormed)
    (findings : List Finding) (checked : List String) :
    (filter.idlePositions (filesOf checked findings)).Nodup ↔
      ¬ ∃ position rule, filter.store.rules[position]? = some rule ∧
        rule.scope filter.store.matching = .oneFile ∧
        filter.store.isDue filter.unusedFunctions position rule = true ∧
        NamesTwice checked findings rule.file := by
  rw [nodup_idlePositions_iff h ((pairwise_filesOf checked findings).imp String.ne_of_lt)]
  constructor
  · rintro hall ⟨position, rule, hread, hscope, hdue, htwice⟩
    obtain ⟨name, other, hne, hname, hother, hfile, hfile'⟩ := htwice
    exact hall name (mem_filesOf_iff.mpr hname) other (mem_filesOf_iff.mpr hother) hne
      (h.mem_idleIn_iff.mpr ⟨rule, hread, ⟨hscope, hfile.symm⟩, hdue⟩)
      (h.mem_idleIn_iff.mpr ⟨rule, hread, ⟨hscope, hfile'.symm⟩, hdue⟩)
  · -- The file of a rule that both names find is the canonical form of both.
    intro hnot name hname other hother hne position hin hin'
    obtain ⟨rule, hread, ⟨hscope, hfile⟩, hdue⟩ := h.mem_idleIn_iff.mp hin
    obtain ⟨rule', hread', ⟨-, hfile'⟩, -⟩ := h.mem_idleIn_iff.mp hin'
    cases hread.symm.trans hread'
    exact hnot ⟨position, rule, hread, hscope, hdue, name, other, hne, mem_filesOf_iff.mp hname,
      mem_filesOf_iff.mp hother, hfile.symm, hfile'.symm⟩

theorem exists_rule_of_mem_told {filter : Filter} (h : filter.store.WellFormed)
    {findings : List Finding} {checked : List String} {position : Nat}
    (hmem : position ∈ filter.told findings checked) :
    ∃ rule, (filter.apply findings checked).2.store.rules[position]? = some rule := by
  have hafter := wellFormed_apply h findings checked
  rw [told] at hmem
  split at hmem
  next =>
    rw [reported, idlePositions, List.mem_append, List.mem_flatMap] at hmem
    rcases hmem with ⟨file, -, hin⟩ | hacross
    · obtain ⟨rule, hread, -⟩ := hafter.mem_idleIn_iff.mp hin
      exact ⟨rule, hread⟩
    · obtain ⟨rule, hread, -⟩ := hafter.mem_idleAcross_iff.mp hacross
      exact ⟨rule, hread⟩
  next => cases hmem

/-- **When a report names a rule twice.** A report lists the rules at the positions that are told,
one for one. No position is told twice, unless rules are reported at all, and the run is about the
file of an idle rule under two names. If no finding writes a backslash, there are no such names. -/
theorem nodup_told_iff {filter : Filter} (h : filter.store.Reachable) (findings : List Finding)
    (checked : List String) :
    let after := (filter.apply findings checked).2.store
    (filter.apply findings checked).1.unmatched.map some =
        (filter.told findings checked).map after.ruleAt? ∧
      ((filter.told findings checked).Nodup ↔
        ¬ (filter.reportsUnmatched = true ∧
          ∃ position rule, after.rules[position]? = some rule ∧
            rule.scope after.matching = .oneFile ∧
            after.isDue filter.unusedFunctions position rule = true ∧
            NamesTwice checked findings rule.file)) ∧
      ((∀ finding ∈ findings, '\\' ∉ finding.file.toList) →
        (filter.told findings checked).Nodup) := by
  intro after
  have hafter : after.WellFormed := wellFormed_apply h.wellFormed findings checked
  have hiff : (filter.told findings checked).Nodup ↔
      ¬ (filter.reportsUnmatched = true ∧
        ∃ position rule, after.rules[position]? = some rule ∧
          rule.scope after.matching = .oneFile ∧
          after.isDue filter.unusedFunctions position rule = true ∧
          NamesTwice checked findings rule.file) := by
    rw [told]
    split
    next hreports =>
      rw [reported, nodup_idlePositions_filesOf_iff hafter, hreports]
      exact not_congr (and_iff_right rfl).symm
    next hsilent =>
      exact iff_of_true List.nodup_nil fun htwice => hsilent htwice.1
  refine ⟨?_, hiff, ?_⟩
  · rw [unmatched_apply_eq_told, List.map_filterMap_some_eq_filter_map_isSome, List.filter_eq_self]
    intro told? hmem
    obtain ⟨position, htold, rfl⟩ := List.mem_map.mp hmem
    obtain ⟨rule, hread⟩ := exists_rule_of_mem_told h.wellFormed htold
    rw [RuleStore.ruleAt?_eq hread, Option.isSome_some]
  · intro hfindings
    rw [hiff]
    rintro ⟨-, -, rule, -, -, -, htwice⟩
    exact not_namesTwice hfindings _ htwice

/-- A checked file written with a backslash, and a finding that names it with a slash: one name. -/
theorem nodup_told_of_checked :
    let store := (RuleStore.empty .literal).perform (.addLine "nullPointer:src/a.c")
    let filter := Filter.ofStore store
    let findings : List Finding := [{ id := "memleak", file := "src/a.c" }]
    filter.store.Reachable ∧ (∀ finding ∈ findings, '\\' ∉ finding.file.toList) ∧
      (filter.told findings ["src\\a.c"]).Nodup := by
  intro store filter findings
  have hstore : store.Reachable := (RuleStore.Reachable.empty .literal).perform _
  have hfindings : ∀ finding ∈ findings, '\\' ∉ finding.file.toList := by decide
  exact ⟨hstore, hfindings, (nodup_told_iff hstore findings ["src\\a.c"]).2.2 hfindings⟩

/-- **A rule that is named twice.** The file is checked, and a finding names it with a backslash. -/
theorem told_twice :
    let store := (RuleStore.empty .literal).perform (.addLine "nullPointer:src/a.c")
    let filter := Filter.ofStore store
    let findings : List Finding := [{ id := "memleak", file := "src\\a.c" }]
    let rule : Rule := { id := "nullPointer", file := "src/a.c" }
    filter.store.Reachable ∧ filter.told findings ["src/a.c"] = [0, 0] ∧
      (filter.apply findings ["src/a.c"]).1.unmatched = [rule, rule] ∧
      ¬ (filter.told findings ["src/a.c"]).Nodup := by
  intro store filter findings rule
  have hstore : store.Reachable := (RuleStore.Reachable.empty .literal).perform _
  have hafter : (filter.apply findings ["src/a.c"]).2.store.WellFormed :=
    wellFormed_apply hstore.wellFormed findings ["src/a.c"]
  have htold : filter.told findings ["src/a.c"] = [0, 0] := by
    have hreports : filter.reportsUnmatched = true := rfl
    rw [told, if_pos hreports, reported, idlePositions, hafter.idleAcross_eq_where]
    simp only [hafter.idleIn_eq_where]
    decide +kernel
  refine ⟨hstore, htold, ?_, ?_⟩
  · rw [unmatched_apply_eq_told, htold]
    decide +kernel
  · rw [htold]
    decide

end Filter

end FindingFilter
