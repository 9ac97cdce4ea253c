import FindingFilter.Proofs.Filter.Report
import FindingFilter.Proofs.RuleStore.Sharding
import Mathlib.Algebra.GroupWithZero.Nat

/-!
# Filters — one run or several

The findings of a run can be put to a filter at once, or in batches, one run after the other, where
each run starts with the flags that the one before it left. This module compares the two. All of it
rests on two facts:

* **`covers_apply`** — a run does not change which findings are covered, so every batch is sifted as
  it would have been in the whole;
* **`markCredits_congr`** — the flags after several runs are settled by which credits were given, not
  by their order, nor by how they were cut into runs (`applyAll_snd_eq`).

Which rules a report names depends on the files of its run as well. A batch knows the files of its
own findings only, so those of all others have to be among its checked files for the last report to
name what the report on the whole names (`idlePositions_filesOf_congr`).
-/

namespace FindingFilter

/-- A rule about one file gives the name of that file. -/
theorem Rule.file_ne_empty_of_scope {rule : Rule} {matching : FileMatching}
    (hscope : rule.scope matching = .oneFile) : rule.file ≠ "" := by
  intro hempty
  have hnone : rule.hasFile = false := by simp [hasFile, hempty]
  simp [scope, hnone] at hscope

namespace RuleStore

theorem markCredits_append (store : RuleStore) (credits more : List (Option Nat)) :
    store.markCredits (credits ++ more) = (store.markCredits credits).markCredits more :=
  List.foldl_append

/-- **Credits can be marked in any order**, and more than once. -/
theorem markCredits_congr (store : RuleStore) {credits others : List (Option Nat)}
    (h : ∀ credit, credit ∈ credits ↔ credit ∈ others) :
    store.markCredits credits = store.markCredits others := by
  obtain ⟨flags, hsize, hcredits⟩ := markCredits_eq store credits
  obtain ⟨flags', hsize', hothers⟩ := markCredits_eq store others
  have hflags : (store.markCredits credits).flags = (store.markCredits others).flags := by
    apply flags_ext
    · rw [size_flags_markCredits, size_flags_markCredits]
    · intro position
      have hcontains : credits.contains (some position) = others.contains (some position) := by
        rw [Bool.eq_iff_iff, List.contains_iff_mem, List.contains_iff_mem, h]
      rw [isMatched_markCredits, isMatched_markCredits, hcontains]
  rw [hcredits, hothers] at hflags ⊢
  have heq : flags = flags' := hflags
  rw [heq]

end RuleStore

namespace Filter

/-! ## What a run leaves to the next -/

/-- Credit after a run is as before it, as only flags have changed. -/
theorem creditFor?_apply (filter : Filter) (findings : List Finding) (checked : List String) :
    (filter.apply findings checked).2.store.creditFor? = filter.store.creditFor? := by
  obtain ⟨flags, -, hafter⟩ := apply_snd_eq filter findings checked
  rw [hafter]
  rfl

theorem covers_apply (filter : Filter) (findings : List Finding) (checked : List String) :
    (filter.apply findings checked).2.store.covers = filter.store.covers := by
  obtain ⟨flags, -, hafter⟩ := apply_snd_eq filter findings checked
  rw [hafter]
  rfl

theorem apply_snd_eq_markCredits (filter : Filter) (findings : List Finding)
    (checked : List String) :
    (filter.apply findings checked).2 =
      { filter with store := filter.store.markCredits (findings.map filter.store.creditFor?) } := by
  rw [apply_eq]

/-- **Nothing that was reported is suppressed by another run.** -/
theorem apply_findings_apply (filter : Filter) (findings : List Finding)
    (checked again : List String) :
    let first := filter.apply findings checked
    (first.2.apply first.1.findings again).1.findings = first.1.findings ∧
      (first.2.apply first.1.findings again).1.suppressed = 0 := by
  intro first
  have hkept : first.1.findings = findings.filter fun finding => !filter.store.covers finding :=
    findings_apply filter findings checked
  constructor
  · rw [findings_apply, covers_apply, hkept, List.filter_filter]
    simp only [Bool.and_self]
  · have hnone : first.1.findings.countP filter.store.covers = 0 := by
      rw [List.countP_eq_zero, hkept]
      intro finding hmem
      simpa using (List.mem_filter.mp hmem).2
    rw [suppressed_apply, covers_apply, hnone]
    rfl

/-! ## Runs in a row -/

/-- What one run of several is about. -/
structure Batch where
  findings : List Finding
  checked : List String := []

/-- The reports on batches that are put to the filter one after the other, and the filter after the
last of them. -/
def applyAll (filter : Filter) : List Batch → List Report × Filter
  | [] => ([], filter)
  | batch :: rest =>
    let (report, filter) := filter.apply batch.findings batch.checked
    let (reports, filter) := filter.applyAll rest
    (report :: reports, filter)

def findingsOf (batches : List Batch) : List Finding :=
  batches.flatMap (·.findings)

theorem findingsOf_cons (batch : Batch) (rest : List Batch) :
    findingsOf (batch :: rest) = batch.findings ++ findingsOf rest := List.flatMap_cons

/-- The batches leave what one run over all their findings leaves. -/
theorem applyAll_snd_eq (filter : Filter) (batches : List Batch) :
    (filter.applyAll batches).2 =
      { filter with
        store := filter.store.markCredits ((findingsOf batches).map filter.store.creditFor?) } := by
  induction batches generalizing filter with
  | nil => rfl
  | cons batch rest ih =>
    have hcredit := creditFor?_apply filter batch.findings batch.checked
    have hafter := apply_snd_eq_markCredits filter batch.findings batch.checked
    show ((filter.apply batch.findings batch.checked).2.applyAll rest).2 = _
    -- The later batches give their credits as the filter at the start would give them.
    rw [ih, hcredit, hafter, findingsOf_cons, List.map_append, RuleStore.markCredits_append]

/-- The reports put together hold what no rule covers, in the order of the batches. -/
theorem findings_foldl_applyAll (filter : Filter) (batches : List Batch) (start : Report) :
    ((filter.applyAll batches).1.foldl Report.append start).findings =
      start.findings ++
        (findingsOf batches).filter fun finding => !filter.store.covers finding := by
  induction batches generalizing filter start with
  | nil => exact (List.append_nil _).symm
  | cons batch rest ih =>
    have hkept := findings_apply filter batch.findings batch.checked
    have hcovers := covers_apply filter batch.findings batch.checked
    show (((filter.apply batch.findings batch.checked).2.applyAll rest).1.foldl Report.append
      (start.append (filter.apply batch.findings batch.checked).1)).findings = _
    rw [ih, hcovers, findingsOf_cons, List.filter_append, ← hkept, ← List.append_assoc]
    rfl

theorem suppressed_foldl_applyAll (filter : Filter) (batches : List Batch) (start : Report) :
    ((filter.applyAll batches).1.foldl Report.append start).suppressed =
      start.suppressed + .ofNat ((findingsOf batches).countP filter.store.covers) := by
  induction batches generalizing filter start with
  | nil => exact (UInt64.add_zero _).symm
  | cons batch rest ih =>
    have hcount := suppressed_apply filter batch.findings batch.checked
    have hcovers := covers_apply filter batch.findings batch.checked
    show (((filter.apply batch.findings batch.checked).2.applyAll rest).1.foldl Report.append
      (start.append (filter.apply batch.findings batch.checked).1)).suppressed = _
    rw [ih, hcovers, findingsOf_cons, List.countP_append, UInt64.ofNat_add, ← hcount,
      ← UInt64.add_assoc]
    rfl

/-- As numbers, too, the counts add up, as long as there are not too many findings to count. -/
theorem sum_suppressed_applyAll (filter : Filter) (batches : List Batch)
    (hlength : (findingsOf batches).length < UInt64.size) :
    ((filter.applyAll batches).1.map (·.suppressed.toNat)).sum =
      (findingsOf batches).countP filter.store.covers := by
  induction batches generalizing filter with
  | nil => rfl
  | cons batch rest ih =>
    have hcovers := covers_apply filter batch.findings batch.checked
    rw [findingsOf_cons, List.length_append] at hlength
    have hcount : (filter.apply batch.findings batch.checked).1.suppressed.toNat =
        batch.findings.countP filter.store.covers := by
      have hle : batch.findings.countP filter.store.covers ≤ batch.findings.length :=
        List.countP_le_length
      rw [suppressed_apply, UInt64.toNat_ofNat_of_lt' (by omega)]
    have hrest := ih (filter.apply batch.findings batch.checked).2 (by omega)
    rw [hcovers] at hrest
    show (filter.apply batch.findings batch.checked).1.suppressed.toNat +
      (((filter.apply batch.findings batch.checked).2.applyAll rest).1.map
        (·.suppressed.toNat)).sum = _
    rw [hrest, hcount, findingsOf_cons, List.countP_append]

theorem applyAll_append_singleton (filter : Filter) (earlier : List Batch) (last : Batch) :
    filter.applyAll (earlier ++ [last]) =
      ((filter.applyAll earlier).1 ++
          [((filter.applyAll earlier).2.apply last.findings last.checked).1],
        ((filter.applyAll earlier).2.apply last.findings last.checked).2) := by
  induction earlier generalizing filter with
  | nil => rfl
  | cons batch rest ih =>
    rw [List.cons_append, applyAll, applyAll]
    simp only [ih]
    rfl

/-! ## The rules that are named at the end -/

section Named

variable {filter : Filter} {findings others : List Finding} {checked moreChecked : List String}

/-- Two runs over the same flags name the same rules if they are about the same files. Whether the
empty name is among them makes no difference, as no rule is about the file of that name. -/
theorem idlePositions_filesOf_congr (h : filter.store.WellFormed)
    (hfindings : ∀ finding ∈ findings, '\\' ∉ finding.file.toList)
    (hothers : ∀ finding ∈ others, '\\' ∉ finding.file.toList)
    (hnamed : ∀ name, name ≠ "" →
      isNamed moreChecked others name = isNamed checked findings name) :
    filter.idlePositions (filesOf moreChecked others) =
      filter.idlePositions (filesOf checked findings) := by
  have hsame : (filter.store.positionsWhere fun position rule =>
        (rule.scope filter.store.matching == .oneFile && isNamed moreChecked others rule.file) &&
          filter.store.isDue filter.unusedFunctions position rule) =
      filter.store.positionsWhere fun position rule =>
        (rule.scope filter.store.matching == .oneFile && isNamed checked findings rule.file) &&
          filter.store.isDue filter.unusedFunctions position rule := by
    apply RuleStore.positionsWhere_congr rfl
    intro position rule _
    -- Only a rule about one file asks whether its file is named, and that file has a name.
    cases hscope : rule.scope filter.store.matching with
    | oneFile => rw [hnamed rule.file (Rule.file_ne_empty_of_scope hscope)]
    | anyFile => rfl
  rw [idlePositions, idlePositions, flatMap_idleIn_eq h hothers, flatMap_idleIn_eq h hfindings,
    hsame]

/-- A run whose checked files are those of another run and all that the other run's findings name is
about the same files, if it has no other findings. -/
theorem isNamed_of_moreChecked (hfindings : ∀ finding ∈ findings, '\\' ∉ finding.file.toList)
    (hsubset : others ⊆ findings)
    (hchecked : ∀ name, name ∈ moreChecked ↔
      name ∈ checked ∨ ∃ finding ∈ findings, finding.file = name)
    {name : String} (hname : name ≠ "") :
    isNamed moreChecked others name = isNamed checked findings name := by
  have hopen : name.isEmpty = false := by simpa using hname
  have hcanonical : ∀ finding ∈ findings, Path.canonical finding.file = finding.file :=
    fun finding hmem => Path.canonical_eq_self_iff.mpr (hfindings finding hmem)
  rw [Bool.eq_iff_iff]
  simp only [isNamed, hopen, Bool.not_false, Bool.true_and, Bool.or_eq_true, List.any_eq_true,
    beq_iff_eq]
  constructor
  · rintro (⟨file, hfile, rfl⟩ | ⟨finding, hmem, rfl⟩)
    · rcases (hchecked file).mp hfile with hold | ⟨finding, hmem, rfl⟩
      · exact Or.inl ⟨file, hold, rfl⟩
      · exact Or.inr ⟨finding, hmem, (hcanonical finding hmem).symm⟩
    · exact Or.inr ⟨finding, hsubset hmem, rfl⟩
  · rintro (⟨file, hfile, rfl⟩ | ⟨finding, hmem, rfl⟩)
    · exact Or.inl ⟨file, (hchecked file).mpr (Or.inl hfile), rfl⟩
    -- The finding may be in another batch, but then its file is checked with this one.
    · exact Or.inl ⟨finding.file, (hchecked _).mpr (Or.inr ⟨finding, hmem, rfl⟩),
        hcanonical finding hmem⟩

end Named

section Batches

variable {filter : Filter} {findings : List Finding} {batches : List Batch}

/-- **Batches in any order leave the filter that one run leaves.** -/
theorem applyAll_snd_of_perm (hbatches : (findingsOf batches).Perm findings)
    (checked : List String) :
    (filter.applyAll batches).2 = (filter.apply findings checked).2 := by
  have hcredits : filter.store.markCredits ((findingsOf batches).map filter.store.creditFor?) =
      filter.store.markCredits (findings.map filter.store.creditFor?) :=
    RuleStore.markCredits_congr _ fun _ => (hbatches.map filter.store.creditFor?).mem_iff
  rw [applyAll_snd_eq, apply_snd_eq_markCredits, hcredits]

theorem unmatched_last_applyAll (h : filter.store.WellFormed)
    (hfindings : ∀ finding ∈ findings, '\\' ∉ finding.file.toList)
    (hbatches : (findingsOf batches).Perm findings) {checked : List String} {last : Batch}
    (hlast : batches.getLast? = some last)
    (hchecked : ∀ name, name ∈ last.checked ↔
      name ∈ checked ∨ ∃ finding ∈ findings, finding.file = name) :
    (filter.applyAll batches).1.getLast?.map (·.unmatched) =
      some (filter.apply findings checked).1.unmatched := by
  obtain ⟨earlier, rfl⟩ := List.getLast?_eq_some_iff.mp hlast
  have hfinal : (filter.applyAll (earlier ++ [last])).2 = (filter.apply findings checked).2 :=
    applyAll_snd_of_perm hbatches checked
  rw [applyAll_append_singleton] at hfinal ⊢
  -- The filter that the last report is asked of is the one after the whole run.
  generalize hbefore : (filter.applyAll earlier).2 = before at hfinal ⊢
  have hafter : (before.apply last.findings last.checked).2 =
      (filter.apply findings checked).2 := hfinal
  have hreports : before.reportsUnmatched = filter.reportsUnmatched := by
    rw [← hbefore, applyAll_snd_eq]
  have hsubset : last.findings ⊆ findings := by
    intro finding hmem
    apply hbatches.subset
    rw [findingsOf, List.flatMap_append]
    exact List.mem_append_right _ (List.mem_flatMap.mpr ⟨last, by simp, hmem⟩)
  have hreported : before.reported last.findings last.checked =
      filter.reported findings checked := by
    rw [reported, reported, hafter]
    apply idlePositions_filesOf_congr (wellFormed_apply h findings checked) hfindings
    · exact fun finding hmem => hfindings finding (hsubset hmem)
    · exact fun name => isNamed_of_moreChecked hfindings hsubset hchecked
  rw [List.getLast?_concat, Option.map_some, unmatched_apply, unmatched_apply, hreports, hreported,
    hafter]

end Batches

/-- **Findings can be put to a filter in any order and in any number of batches.** Put together, the
reports on the batches hold the findings that one report on all of them holds, in the order in which
they came, and the same count of the others; and the filter is left as one run leaves it. If the
checked files of the last batch are those of the one run and all files that findings name, its report
names the same rules. Whatever was reported is reported unchanged by another run. -/
theorem applyAll_of_perm {filter : Filter} (h : filter.store.Reachable) {findings : List Finding}
    (hfindings : ∀ finding ∈ findings, '\\' ∉ finding.file.toList) {batches : List Batch}
    (hbatches : (findingsOf batches).Perm findings) (checked : List String) :
    let whole := filter.apply findings checked
    let parts := filter.applyAll batches
    let together := parts.1.foldl Report.append {}
    together.suppressed = whole.1.suppressed ∧
      (findings.length < UInt64.size →
        (parts.1.map (·.suppressed.toNat)).sum = whole.1.suppressed.toNat) ∧
      together.findings.Perm whole.1.findings ∧
      (findingsOf batches = findings → together.findings = whole.1.findings) ∧
      parts.2 = whole.2 ∧
      (∀ last, batches.getLast? = some last →
        (∀ name, name ∈ last.checked ↔
          name ∈ checked ∨ ∃ finding ∈ findings, finding.file = name) →
        parts.1.getLast?.map (·.unmatched) = some whole.1.unmatched) ∧
      ∀ again, (whole.2.apply whole.1.findings again).1.findings = whole.1.findings ∧
        (whole.2.apply whole.1.findings again).1.suppressed = 0 := by
  intro whole parts together
  have hkept : together.findings =
      (findingsOf batches).filter fun finding => !filter.store.covers finding :=
    findings_foldl_applyAll filter batches {}
  have hwhole : whole.1.findings = findings.filter fun finding => !filter.store.covers finding :=
    findings_apply filter findings checked
  have hcount : (findingsOf batches).countP filter.store.covers =
      findings.countP filter.store.covers := hbatches.countP_eq _
  refine ⟨?_, ?_, ?_, ?_, applyAll_snd_of_perm hbatches checked, ?_,
    apply_findings_apply filter findings checked⟩
  · rw [suppressed_foldl_applyAll, UInt64.zero_add, hcount, suppressed_apply]
  · intro hlength
    have hle : findings.countP filter.store.covers ≤ findings.length := List.countP_le_length
    rw [sum_suppressed_applyAll filter batches (hbatches.length_eq ▸ hlength), hcount,
      suppressed_apply, UInt64.toNat_ofNat_of_lt' (by omega)]
  · rw [hkept, hwhole]
    exact hbatches.filter _
  · intro hsame
    rw [hkept, hwhole, hsame]
  · intro last hlast hchecked
    exact unmatched_last_applyAll h.wellFormed hfindings hbatches hlast hchecked

/-- Three findings in two batches, the last of them first; the files of the first batch are checked
with the second. -/
theorem applyAll_of_perm_two_batches :
    let store := (RuleStore.empty .literal).perform (.addText "null:a.c\nleak:b.c\ndead:c.c")
    let filter := Filter.ofStore store
    let null : Finding := { id := "null", file := "a.c" }
    let leak : Finding := { id := "leak", file := "a.c" }
    let other : Finding := { id := "other" }
    let last : Batch := ⟨[null], ["", "b.c", "a.c"]⟩
    let whole := filter.apply [null, leak, other] ["b.c"]
    let parts := filter.applyAll [⟨[other, leak], []⟩, last]
    filter.store.Reachable ∧ (∀ finding ∈ [null, leak, other], '\\' ∉ finding.file.toList) ∧
      (findingsOf [⟨[other, leak], []⟩, last]).Perm [null, leak, other] ∧
      (parts.1.foldl Report.append {}).suppressed = whole.1.suppressed ∧
      (parts.1.foldl Report.append {}).findings.Perm whole.1.findings ∧
      parts.2 = whole.2 ∧ parts.1.getLast?.map (·.unmatched) = some whole.1.unmatched := by
  intro store filter null leak other last whole parts
  have hstore : filter.store.Reachable := by
    show store.Reachable
    exact (RuleStore.Reachable.empty .literal).perform _
  have hfindings : ∀ finding ∈ [null, leak, other], '\\' ∉ finding.file.toList := by decide
  have hbatches : (findingsOf [⟨[other, leak], []⟩, last]).Perm [null, leak, other] := by decide
  have hchecked : ∀ name, name ∈ last.checked ↔
      name ∈ ["b.c"] ∨ ∃ finding ∈ [null, leak, other], finding.file = name := by
    intro name
    simp only [last, null, leak, other, List.mem_cons, List.not_mem_nil, or_false,
      exists_eq_or_imp, exists_eq_left]
    grind
  obtain ⟨hsuppressed, -, hkept, -, hafter, hunmatched, -⟩ :=
    applyAll_of_perm hstore hfindings hbatches ["b.c"]
  exact ⟨hstore, hfindings, hbatches, hsuppressed, hkept, hafter, hunmatched last rfl hchecked⟩

end Filter

end FindingFilter
