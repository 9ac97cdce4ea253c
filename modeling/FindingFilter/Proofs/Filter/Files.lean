import FindingFilter.Filter.Basic

/-!
# Filters — the files that a run is about

A run is about the files that were checked and about those that its findings name. `filesOf` lists
them by insertion into a sorted list: what an insertion keeps is `pairwise_insertName`, what it adds
is `mem_insertName_iff`. So the list is strictly ascending (`pairwise_filesOf`), and it holds the
names that `isNamed` tells (`mem_filesOf_iff`).

The names of checked files are listed in canonical form, those in findings as they stand. If no
finding writes a backslash, all names are canonical (`canonical_of_isNamed`); else one file may be
listed under several names.
-/

namespace FindingFilter

/-- Whether a run is about a file of this name: a checked file has it in canonical form, or a
finding has it as it stands. -/
def isNamed (checked : List String) (findings : List Finding) (name : String) : Bool :=
  checked.any (fun file => Path.canonical file == name) ||
    (!name.isEmpty && findings.any fun finding => finding.file == name)

theorem mem_insertName_iff {name other : String} {names : List String} :
    other ∈ insertName name names ↔ other = name ∨ other ∈ names := by
  induction names with
  | nil => rw [insertName, List.mem_singleton, or_iff_left List.not_mem_nil]
  | cons first rest ih =>
    rw [insertName]
    split
    · exact List.mem_cons
    · split
      next heq =>
        rw [heq, List.mem_cons, ← or_assoc, or_self]
      next => rw [List.mem_cons, ih, List.mem_cons, or_left_comm]

theorem pairwise_insertName {names : List String} (h : names.Pairwise (· < ·)) (name : String) :
    (insertName name names).Pairwise (· < ·) := by
  induction names with
  | nil => exact List.pairwise_singleton ..
  | cons first rest ih =>
    obtain ⟨hfirst, hrest⟩ := List.pairwise_cons.mp h
    rw [insertName]
    split
    next hlt =>
      -- In front of `first`, and so in front of all that follows it.
      refine List.pairwise_cons.mpr ⟨?_, h⟩
      intro other hmem
      rcases List.mem_cons.mp hmem with rfl | hmem
      · exact hlt
      · exact String.lt_trans hlt (hfirst other hmem)
    next hnot =>
      split
      next => exact h
      next hne =>
        have hgt : first < name := by
          rcases Std.lt_trichotomy name first with hlt | heq | hgt
          · exact absurd hlt hnot
          · exact absurd heq hne
          · exact hgt
        -- `first` stays in front, of the new name as well.
        refine List.pairwise_cons.mpr ⟨?_, ih hrest⟩
        intro other hmem
        rcases mem_insertName_iff.mp hmem with rfl | hmem
        · exact hgt
        · exact hfirst other hmem

section InsertAll

variable {names files : List String}

theorem mem_foldl_insertName_iff {name : String} :
    name ∈ names.foldl (fun files name => insertName name files) files ↔
      name ∈ names ∨ name ∈ files := by
  induction names generalizing files with
  | nil => rw [List.foldl_nil, or_iff_right List.not_mem_nil]
  | cons first rest ih =>
    rw [List.foldl_cons, ih, mem_insertName_iff, List.mem_cons, or_left_comm, or_assoc]

theorem pairwise_foldl_insertName (h : files.Pairwise (· < ·)) :
    (names.foldl (fun files name => insertName name files) files).Pairwise (· < ·) := by
  induction names generalizing files with
  | nil => exact h
  | cons first rest ih => exact ih (pairwise_insertName h first)

end InsertAll

variable {checked : List String} {findings : List Finding}

/-- **The files are listed in ascending order, each once.** -/
theorem pairwise_filesOf (checked : List String) (findings : List Finding) :
    (filesOf checked findings).Pairwise (· < ·) :=
  pairwise_foldl_insertName List.Pairwise.nil

theorem mem_filesOf_iff {name : String} :
    name ∈ filesOf checked findings ↔ isNamed checked findings name = true := by
  rw [filesOf, mem_foldl_insertName_iff, or_iff_left List.not_mem_nil, List.mem_append, isNamed,
    Bool.or_eq_true, Bool.and_eq_true, List.any_eq_true, List.any_eq_true, List.mem_filter]
  simp only [List.mem_map, beq_iff_eq, and_comm]

theorem canonical_of_isNamed (hfindings : ∀ finding ∈ findings, '\\' ∉ finding.file.toList)
    {name : String} (hname : isNamed checked findings name = true) :
    Path.canonical name = name := by
  rw [Path.canonical_eq_self_iff]
  rw [isNamed, Bool.or_eq_true, Bool.and_eq_true, List.any_eq_true, List.any_eq_true] at hname
  rcases hname with ⟨file, -, heq⟩ | ⟨-, finding, hmem, heq⟩
  · rw [← beq_iff_eq.mp heq]
    exact Path.not_mem_canonical file
  · rw [← beq_iff_eq.mp heq]
    exact hfindings finding hmem

end FindingFilter
