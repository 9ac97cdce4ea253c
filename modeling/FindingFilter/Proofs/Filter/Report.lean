import FindingFilter.Proofs.Filter.Repetition
import FindingFilter.Proofs.Text.ByteOrder

/-!
# Filters — what a report holds

The whole of a report, told without the pass over the findings, the sorted set of files and the
indices: `isReportOn_apply`. The parts are

* **`isSome_creditFor?_eq_covers`** — a finding is kept if and only if no rule covers it;
* **`isMatched_apply_iff`** — what a run adds to the flags;
* **`flatMap_idleIn_eq`** — asking file by file gives the idle rules about these files in the order
  of the bytes of their file names, and of their positions where the names are the same.

The last holds if no finding writes a backslash; else the files are not asked for in the order of
their canonical names.
-/

namespace FindingFilter

namespace RuleStore

/-- Whether a rule of the store covers the finding. -/
def covers (store : RuleStore) (finding : Finding) : Bool :=
  store.rules.any fun rule => rule.covers store.matching finding

theorem isSome_creditFor?_eq_covers (store : RuleStore) (finding : Finding) :
    (store.creditFor? finding).isSome = store.covers finding := by
  rw [Bool.eq_iff_iff, creditFor?_isSome_iff, covers, Array.any_eq_true]
  constructor
  · rintro ⟨position, hlt, hcovers⟩
    rw [coversAt, Array.getElem?_eq_getElem hlt] at hcovers
    exact ⟨position, hlt, hcovers⟩
  · rintro ⟨position, hlt, hcovers⟩
    refine ⟨position, hlt, ?_⟩
    rw [coversAt, Array.getElem?_eq_getElem hlt]
    exact hcovers

/-! ## The order of rules about files -/

/-- The file that the rule at a position is about. -/
def fileAt (store : RuleStore) (position : Nat) : String :=
  (store.rules[position]?).elim "" (·.file)

/-- The order in which rules about files are reported: by the bytes of the names, and rules about
the same file as they were added. -/
def listedBefore (store : RuleStore) (position other : Nat) : Bool :=
  Text.bytes (store.fileAt position) < Text.bytes (store.fileAt other) ||
    (store.fileAt position == store.fileAt other && decide (position ≤ other))

theorem listedBefore_iff {store : RuleStore} {position other : Nat} :
    store.listedBefore position other = true ↔
      store.fileAt position < store.fileAt other ∨
        store.fileAt position = store.fileAt other ∧ position ≤ other := by
  rw [listedBefore, Bool.or_eq_true, Bool.and_eq_true, decide_eq_true_iff, decide_eq_true_iff,
    beq_iff_eq, Text.bytes_lt_bytes_iff]

theorem listedBefore_trans (store : RuleStore) (i j k : Nat)
    (hij : store.listedBefore i j = true) (hjk : store.listedBefore j k = true) :
    store.listedBefore i k = true := by
  rw [listedBefore_iff] at *
  rcases hij with hij | ⟨hij, hle⟩
  · rcases hjk with hjk | ⟨hjk, -⟩
    · exact Or.inl (String.lt_trans hij hjk)
    · exact Or.inl (hjk ▸ hij)
  · rcases hjk with hjk | ⟨hjk, hle'⟩
    · exact Or.inl (hij ▸ hjk)
    · exact Or.inr ⟨hij.trans hjk, Nat.le_trans hle hle'⟩

theorem listedBefore_total (store : RuleStore) (i j : Nat) :
    (store.listedBefore i j || store.listedBefore j i) = true := by
  rw [Bool.or_eq_true, listedBefore_iff, listedBefore_iff]
  rcases Std.lt_trichotomy (store.fileAt i) (store.fileAt j) with hlt | heq | hgt
  · exact Or.inl (Or.inl hlt)
  · rcases Nat.le_total i j with hle | hge
    · exact Or.inl (Or.inr ⟨heq, hle⟩)
    · exact Or.inr (Or.inr ⟨heq.symm, hge⟩)
  · exact Or.inr (Or.inl hgt)

theorem listedBefore_antisymm {store : RuleStore} {i j : Nat}
    (hij : store.listedBefore i j = true) (hji : store.listedBefore j i = true) : i = j := by
  rw [listedBefore_iff] at hij hji
  rcases hij with hij | ⟨hij, hle⟩
  · rcases hji with hji | ⟨hji, -⟩
    · exact absurd hji (String.lt_asymm hij)
    · exact absurd (hji ▸ hij) (String.lt_irrefl _)
  · rcases hji with hji | ⟨-, hge⟩
    · exact absurd (hij ▸ hji) (String.lt_irrefl _)
    · exact Nat.le_antisymm hle hge

theorem eq_mergeSort {store : RuleStore} {listed positions : List Nat}
    (hlisted : listed.Pairwise fun i j => store.listedBefore i j = true)
    (hperm : listed.Perm positions) : listed = positions.mergeSort store.listedBefore := by
  have hsorted : (positions.mergeSort store.listedBefore).Pairwise
      fun i j => store.listedBefore i j = true :=
    List.pairwise_mergeSort store.listedBefore_trans store.listedBefore_total positions
  refine List.Perm.eq_of_pairwise ?_ hlisted hsorted
    (hperm.trans (List.mergeSort_perm positions store.listedBefore).symm)
  intro i j _ _
  exact listedBefore_antisymm

theorem WellFormed.fileAt_of_mem_idleIn {store : RuleStore} (h : store.WellFormed)
    {unusedFunctions : Bool} {file : String} {position : Nat}
    (hmem : position ∈ store.idleIn file unusedFunctions) :
    store.fileAt position = Path.canonical file := by
  obtain ⟨rule, hread, ⟨-, hfile⟩, -⟩ := h.mem_idleIn_iff.mp hmem
  rw [fileAt, hread]
  exact hfile

/-- Asking for files in ascending order gives the rules in the order of reports. -/
theorem WellFormed.pairwise_flatMap_idleIn {store : RuleStore} (h : store.WellFormed)
    (unusedFunctions : Bool) {files : List String} (hfiles : files.Pairwise (· < ·))
    (hcanonical : ∀ name ∈ files, Path.canonical name = name) :
    (files.flatMap fun file => store.idleIn file unusedFunctions).Pairwise
      fun position other => store.listedBefore position other = true := by
  refine List.pairwise_flatMap.mpr ⟨?_, ?_⟩
  · -- One file: the positions decide.
    rintro file -
    refine (h.pairwise_idleIn file unusedFunctions).imp_of_mem ?_
    intro i j hi hj hlt
    refine listedBefore_iff.mpr (Or.inr ⟨?_, Nat.le_of_lt hlt⟩)
    rw [h.fileAt_of_mem_idleIn hi, h.fileAt_of_mem_idleIn hj]
  · -- Two files: their names do.
    refine hfiles.imp_of_mem ?_
    intro name other hname hother hlt i hi j hj
    refine listedBefore_iff.mpr (Or.inl ?_)
    rw [h.fileAt_of_mem_idleIn hi, h.fileAt_of_mem_idleIn hj, hcanonical _ hname,
      hcanonical _ hother]
    exact hlt

end RuleStore

namespace Filter

variable {filter : Filter} {findings : List Finding} {checked : List String}

theorem mem_flatMap_idleIn_iff (h : filter.store.WellFormed)
    (hcanonical : ∀ name ∈ filesOf checked findings, Path.canonical name = name) {position : Nat} :
    (position ∈ (filesOf checked findings).flatMap fun file =>
        filter.store.idleIn file filter.unusedFunctions) ↔
      ∃ rule, filter.store.rules[position]? = some rule ∧
        (rule.scope filter.store.matching = .oneFile ∧
          isNamed checked findings rule.file = true) ∧
        filter.store.isDue filter.unusedFunctions position rule = true := by
  simp only [List.mem_flatMap, h.mem_idleIn_iff]
  constructor
  · -- The name that is asked for is canonical, so it is the one that the rule gives.
    rintro ⟨name, hname, rule, hread, ⟨hscope, hfile⟩, hdue⟩
    rw [hcanonical name hname] at hfile
    exact ⟨rule, hread, ⟨hscope, hfile ▸ mem_filesOf_iff.mp hname⟩, hdue⟩
  · rintro ⟨rule, hread, ⟨hscope, hname⟩, hdue⟩
    have hmem := mem_filesOf_iff.mpr hname
    exact ⟨rule.file, hmem, rule, hread, ⟨hscope, (hcanonical _ hmem).symm⟩, hdue⟩

theorem nodup_flatMap_idleIn (h : filter.store.WellFormed)
    (hfindings : ∀ finding ∈ findings, '\\' ∉ finding.file.toList) :
    ((filesOf checked findings).flatMap fun file =>
      filter.store.idleIn file filter.unusedFunctions).Nodup := by
  -- No file has two names.
  have hall : (filter.idlePositions (filesOf checked findings)).Nodup := by
    rw [nodup_idlePositions_filesOf_iff h]
    rintro ⟨-, rule, -, -, -, htwice⟩
    exact not_namesTwice hfindings _ htwice
  exact (List.nodup_append.mp hall).1

/-- **File by file means by the order of names.** What is asked for file by file is sorted already,
and holds the same positions as the store does. -/
theorem flatMap_idleIn_eq (h : filter.store.WellFormed)
    (hfindings : ∀ finding ∈ findings, '\\' ∉ finding.file.toList) :
    ((filesOf checked findings).flatMap fun file =>
        filter.store.idleIn file filter.unusedFunctions) =
      (filter.store.positionsWhere fun position rule =>
        (rule.scope filter.store.matching == .oneFile && isNamed checked findings rule.file) &&
          filter.store.isDue filter.unusedFunctions position rule).mergeSort
        filter.store.listedBefore := by
  have hcanonical : ∀ name ∈ filesOf checked findings, Path.canonical name = name :=
    fun name hname => canonical_of_isNamed hfindings (mem_filesOf_iff.mp hname)
  apply RuleStore.eq_mergeSort
  · exact h.pairwise_flatMap_idleIn _ (pairwise_filesOf checked findings) hcanonical
  · rw [List.perm_ext_iff_of_nodup (nodup_flatMap_idleIn h hfindings)
      (RuleStore.pairwise_positionsWhere.imp Nat.ne_of_lt)]
    intro position
    rw [mem_flatMap_idleIn_iff h hcanonical]
    simp only [RuleStore.mem_positionsWhere, Bool.and_eq_true, beq_iff_eq]

/-! ## The parts of a report -/

theorem findings_apply (filter : Filter) (findings : List Finding) (checked : List String) :
    (filter.apply findings checked).1.findings =
      findings.filter fun finding => !filter.store.covers finding := by
  rw [apply_eq]
  simp only [← Option.not_isSome, RuleStore.isSome_creditFor?_eq_covers]

theorem suppressed_apply (filter : Filter) (findings : List Finding) (checked : List String) :
    (filter.apply findings checked).1.suppressed =
      .ofNat (findings.countP filter.store.covers) := by
  rw [apply_eq]
  simp only [RuleStore.isSome_creditFor?_eq_covers]

theorem total_apply (filter : Filter) (findings : List Finding) (checked : List String) :
    (filter.apply findings checked).1.total = .ofNat findings.length := by
  have hcount := List.length_eq_countP_add_countP filter.store.covers (l := findings)
  rw [Report.total, findings_apply, suppressed_apply, ← UInt64.ofNat_add,
    ← List.countP_eq_length_filter, hcount, Nat.add_comm]
  simp only [Bool.not_eq_true, Bool.decide_eq_false]

theorem reported_eq (h : filter.store.WellFormed)
    (hfindings : ∀ finding ∈ findings, '\\' ∉ finding.file.toList) :
    let after := (filter.apply findings checked).2.store
    filter.reported findings checked =
      (after.positionsWhere fun position rule =>
          (rule.scope after.matching == .oneFile && isNamed checked findings rule.file) &&
            after.isDue filter.unusedFunctions position rule).mergeSort after.listedBefore ++
        after.positionsWhere fun position rule =>
          rule.scope after.matching == .anyFile &&
            after.isDue filter.unusedFunctions position rule := by
  intro after
  have hafter : after.WellFormed := wellFormed_apply h findings checked
  have hunused : (filter.apply findings checked).2.unusedFunctions = filter.unusedFunctions := by
    obtain ⟨flags, -, hflags⟩ := apply_snd_eq filter findings checked
    rw [hflags]
  rw [reported, idlePositions, flatMap_idleIn_eq hafter hfindings, hafter.idleAcross_eq_where,
    hunused]

/-- A run sets the flags of the rules that get the credit for a finding. -/
theorem isMatched_apply_iff (h : filter.store.WellFormed) {position : Nat} :
    (filter.apply findings checked).2.store.isMatched position = true ↔
      filter.store.isMatched position = true ∨
        ∃ finding ∈ findings, filter.store.creditFor? finding = some position := by
  rw [apply_eq, RuleStore.isMatched_markCredits, Bool.or_eq_true, Bool.and_eq_true,
    List.contains_iff_mem, List.mem_map, decide_eq_true_iff]
  apply or_congr_right
  -- A credit goes to a position in the store, where there is a flag to set.
  rw [and_iff_left_iff_imp]
  rintro ⟨finding, -, hcredit⟩
  rw [h.size_flags]
  exact (RuleStore.creditFor?_eq_some_iff.mp hcredit).1

/-- What a report on a run holds, and which store the run leaves. -/
structure IsReportOn (filter : Filter) (findings : List Finding) (checked : List String)
    (report : Report) (after : RuleStore) : Prop where
  /-- The findings that no rule covers, in their order. -/
  findings_eq : report.findings = findings.filter fun finding => !filter.store.covers finding
  /-- The others are counted, in 64 bits. -/
  suppressed_eq : report.suppressed = .ofNat (findings.countP filter.store.covers)
  total_eq : report.total = .ofNat findings.length
  toNat_suppressed : findings.length < UInt64.size →
    report.suppressed.toNat = findings.countP filter.store.covers
  toNat_total : findings.length < UInt64.size → report.total.toNat = findings.length
  /-- The run sets flags: those of the rules that are the first to cover a finding. -/
  rules_eq : after.rules = filter.store.rules
  matching_eq : after.matching = filter.store.matching
  isMatched_iff : ∀ position, after.isMatched position = true ↔
    filter.store.isMatched position = true ∨
      ∃ finding ∈ findings, filter.store.creditFor? finding = some position
  /-- The rules whose flag is not set after the run, and which count: first those about a file of
  the run, in the order of the bytes of its name and then of position, then those about no single
  file, in the order of position. -/
  unmatched_eq : report.unmatched =
    if filter.reportsUnmatched then
      ((after.positionsWhere fun position rule =>
          (rule.scope after.matching == .oneFile && isNamed checked findings rule.file) &&
            after.isDue filter.unusedFunctions position rule).mergeSort after.listedBefore ++
        after.positionsWhere fun position rule =>
          rule.scope after.matching == .anyFile &&
            after.isDue filter.unusedFunctions position rule).filterMap after.ruleAt?
    else []

/-- **What a report holds**, for every run over findings that write no backslash. -/
theorem isReportOn_apply (h : filter.store.Reachable)
    (hfindings : ∀ finding ∈ findings, '\\' ∉ finding.file.toList) (checked : List String) :
    filter.IsReportOn findings checked (filter.apply findings checked).1
      (filter.apply findings checked).2.store := by
  obtain ⟨flags, -, hflags⟩ := apply_snd_eq filter findings checked
  have hsuppressed := suppressed_apply filter findings checked
  have htotal := total_apply filter findings checked
  refine ⟨findings_apply filter findings checked, hsuppressed, htotal, ?_, ?_, ?_, ?_, ?_, ?_⟩
  · intro hlt
    rw [hsuppressed, UInt64.toNat_ofNat_of_lt' (Nat.lt_of_le_of_lt List.countP_le_length hlt)]
  · intro hlt
    rw [htotal, UInt64.toNat_ofNat_of_lt' hlt]
  · rw [hflags]
  · rw [hflags]
  · intro position
    exact isMatched_apply_iff h.wellFormed
  · rw [unmatched_apply, reported_eq h.wellFormed hfindings]

/-- A finding is covered, another is not; two rules are left, one about a checked file. -/
theorem isReportOn_three_rules :
    let store := (RuleStore.empty .literal).perform
      (.addText "nullPointer:a.c\nmemleak\nuninitvar:lib/c.c")
    let filter := Filter.ofStore store
    let findings : List Finding :=
      [{ id := "nullPointer", file := "a.c" }, { id := "nullPointer", file := "b.c" }]
    filter.store.Reachable ∧ (∀ finding ∈ findings, '\\' ∉ finding.file.toList) ∧
      filter.IsReportOn findings ["lib\\c.c"] (filter.apply findings ["lib\\c.c"]).1
        (filter.apply findings ["lib\\c.c"]).2.store := by
  intro store filter findings
  have hstore : store.Reachable := (RuleStore.Reachable.empty .literal).perform _
  have hfindings : ∀ finding ∈ findings, '\\' ∉ finding.file.toList := by decide
  exact ⟨hstore, hfindings, isReportOn_apply hstore hfindings ["lib\\c.c"]⟩

end Filter

end FindingFilter
