import FindingFilter.Filter.Basic
import FindingFilter.Proofs.RuleStore.WellFormed

/-!
# Rule stores — credit does not depend on flags

Which rule is credited with a finding is decided by the rules alone; the flags are only written. So
the credits of a whole run can be read off the store it starts with, and what the run leaves behind
is that store with those credits marked: `markCredits`. Two facts carry all that later proofs need
of a run:

* **`isMatched_markCredits`** — a flag is set after a run if it was set before or its position got a
  credit; order and repetition of the credits do not matter;
* **`sift_eq`** — a pass over findings keeps those without credit, counts the others, and marks the
  credits.
-/

namespace FindingFilter.RuleStore

/-- The store with every credit of a list marked. -/
def markCredits (store : RuleStore) (credits : List (Option Nat)) : RuleStore :=
  credits.foldl markCredit store

theorem markCredits_cons (store : RuleStore) (credit : Option Nat) (credits : List (Option Nat)) :
    store.markCredits (credit :: credits) = (store.markCredit credit).markCredits credits := rfl

/-- Marking a credit changes the flags and nothing else, and not their number. -/
theorem markCredit_eq (store : RuleStore) (credit : Option Nat) :
    ∃ flags : Array Bool, flags.size = store.flags.size ∧
      store.markCredit credit = { store with flags } := by
  cases credit with
  | some position => exact ⟨_, Array.size_setIfInBounds .., rfl⟩
  | none => exact ⟨store.flags, rfl, rfl⟩

theorem markCredits_eq (store : RuleStore) (credits : List (Option Nat)) :
    ∃ flags : Array Bool, flags.size = store.flags.size ∧
      store.markCredits credits = { store with flags } := by
  induction credits generalizing store with
  | nil => exact ⟨store.flags, rfl, rfl⟩
  | cons credit credits ih =>
    obtain ⟨flags, hsize, hstep⟩ := markCredit_eq store credit
    obtain ⟨flags', hsize', hrest⟩ := ih { store with flags }
    refine ⟨flags', hsize'.trans hsize, ?_⟩
    rw [markCredits_cons, hstep, hrest]

theorem size_flags_markCredits (store : RuleStore) (credits : List (Option Nat)) :
    (store.markCredits credits).flags.size = store.flags.size := by
  obtain ⟨flags, hsize, heq⟩ := markCredits_eq store credits
  rw [heq, hsize]

theorem WellFormed.markCredits {store : RuleStore} (h : store.WellFormed)
    (credits : List (Option Nat)) : (store.markCredits credits).WellFormed := by
  induction credits generalizing store with
  | nil => exact h
  | cons credit credits ih => exact ih (isClosed_wellFormed.markCredit h credit)

theorem isMatched_markCredit (store : RuleStore) (credit : Option Nat) (position : Nat) :
    (store.markCredit credit).isMatched position =
      (store.isMatched position || (credit == some position && position < store.flags.size)) := by
  cases credit with
  | none => simp [markCredit]
  | some marked =>
    rw [markCredit, isMatched_mark]
    by_cases heq : marked = position
    · simp [heq]
    · have hne : (marked == position) = false := by simpa using heq
      simp [hne]

/-- **Credits add up.** What is marked after a list of credits is what was marked before and what is
in the list. -/
theorem isMatched_markCredits (store : RuleStore) (credits : List (Option Nat)) (position : Nat) :
    (store.markCredits credits).isMatched position =
      (store.isMatched position ||
        (credits.contains (some position) && position < store.flags.size)) := by
  induction credits generalizing store with
  | nil => simp [markCredits]
  | cons credit credits ih =>
    obtain ⟨flags, hsize, hstep⟩ := markCredit_eq store credit
    have hfirst := isMatched_markCredit store credit position
    rw [markCredits_cons, ih, hfirst, hstep, hsize, List.contains_cons, Bool.beq_comm,
      Bool.or_assoc, ← Bool.and_or_distrib_right]

/-! ## Credit in a pass over findings -/

/-- The first rule in the store that covers a finding gets the credit. -/
theorem creditFor?_eq_some_iff {store : RuleStore} {finding : Finding} {position : Nat} :
    store.creditFor? finding = some position ↔
      position < store.size ∧ store.coversAt finding position = true ∧
        ∀ earlier < position, store.coversAt finding earlier = false := by
  rw [creditFor?, List.find?_range_eq_some, List.mem_range]
  simp only [Bool.not_eq_true']
  exact and_left_comm

theorem creditFor?_isSome_iff {store : RuleStore} {finding : Finding} :
    (store.creditFor? finding).isSome = true ↔
      ∃ position < store.size, store.coversAt finding position = true := by
  rw [creditFor?, List.find?_isSome]
  simp only [List.mem_range]

/-- What a pass leaves, told from the store it starts with. -/
theorem sift_eq (store : RuleStore) (findings : List Finding) :
    store.sift findings =
      { kept := findings.filter fun finding => (store.creditFor? finding).isNone
        suppressed := findings.countP fun finding => (store.creditFor? finding).isSome
        store := store.markCredits (findings.map store.creditFor?) } := by
  induction findings generalizing store with
  | nil => rfl
  | cons finding rest ih =>
    obtain ⟨flags, -, hstep⟩ := markCredit_eq store (store.creditFor? finding)
    -- The credits of the rest are those of the store before, as only flags have changed.
    have hcredit : (store.markCredit (store.creditFor? finding)).creditFor? = store.creditFor? := by
      rw [hstep]
      rfl
    have hrest := ih (store.markCredit (store.creditFor? finding))
    rw [hcredit] at hrest
    rw [sift, suppresses]
    simp only [hrest, List.map_cons, markCredits_cons, List.filter_cons, List.countP_cons]
    cases h : store.creditFor? finding with
    | none => simp
    | some position => simp

end FindingFilter.RuleStore
