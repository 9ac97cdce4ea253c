import FindingFilter.Proofs.RuleStore.Credit

/-!
# Filters — a run over findings

A run takes the findings through the store and asks for idle rules at the end. Both can be told from
the store that the run starts with, as credit does not depend on flags: `apply_eq` gives the report
and the filter afterwards, and `told` the positions of the rules that the report names. The filter
afterwards has other flags and nothing else (`apply_snd_eq`).
-/

namespace FindingFilter.Filter

/-- The positions of the rules that the report on a run names as unmatched. -/
def reported (filter : Filter) (findings : List Finding) (checked : List String) : List Nat :=
  (filter.apply findings checked).2.idlePositions (filesOf checked findings)

/-- As `reported`, but none if the filter names no rules. -/
def told (filter : Filter) (findings : List Finding) (checked : List String) : List Nat :=
  if filter.reportsUnmatched then filter.reported findings checked else []

/-- A run told from the store it starts with. -/
theorem apply_eq (filter : Filter) (findings : List Finding) (checked : List String) :
    filter.apply findings checked =
      let after := { filter with
        store := filter.store.markCredits (findings.map filter.store.creditFor?) }
      ({ findings := findings.filter fun finding => (filter.store.creditFor? finding).isNone
         suppressed := .ofNat (findings.countP fun finding =>
          (filter.store.creditFor? finding).isSome)
         unmatched :=
          if filter.reportsUnmatched then after.unmatched (filesOf checked findings) else [] },
        after) := by
  rw [apply, RuleStore.sift_eq]

/-- The report on a run names the rules at the reported positions. -/
theorem unmatched_apply (filter : Filter) (findings : List Finding) (checked : List String) :
    (filter.apply findings checked).1.unmatched =
      if filter.reportsUnmatched then
        (filter.reported findings checked).filterMap (filter.apply findings checked).2.store.ruleAt?
      else [] := rfl

theorem unmatched_apply_eq_told (filter : Filter) (findings : List Finding)
    (checked : List String) :
    (filter.apply findings checked).1.unmatched =
      (filter.told findings checked).filterMap
        (filter.apply findings checked).2.store.ruleAt? := by
  rw [unmatched_apply, told]
  split
  · rfl
  · rfl

/-- A run sets flags and changes nothing else. -/
theorem apply_snd_eq (filter : Filter) (findings : List Finding) (checked : List String) :
    ∃ flags : Array Bool, flags.size = filter.store.flags.size ∧
      (filter.apply findings checked).2 = { filter with store := { filter.store with flags } } := by
  obtain ⟨flags, hsize, hafter⟩ :=
    RuleStore.markCredits_eq filter.store (findings.map filter.store.creditFor?)
  refine ⟨flags, hsize, ?_⟩
  rw [apply_eq, ← hafter]

theorem wellFormed_apply {filter : Filter} (h : filter.store.WellFormed) (findings : List Finding)
    (checked : List String) : (filter.apply findings checked).2.store.WellFormed := by
  rw [apply_eq]
  exact h.markCredits _

end FindingFilter.Filter
