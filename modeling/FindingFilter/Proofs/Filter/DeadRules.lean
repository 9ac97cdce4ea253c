import FindingFilter.Proofs.Filter.Run
import FindingFilter.Proofs.RuleStore.Idle

/-!
# Filters — rules that a report calls unmatched can go

The report on a run names the rules that covered nothing. This module shows that it is safe to act
on it: a filter with the same settings and the same rules but those, with no flag set, reports the
same findings and the same count on the same run, and names no rule any more
(`apply_of_isPruned`).

Positions shift when rules are taken out. `positionsWithout` lists what is left in order, so the rule
at position `j` of the smaller store stands at the `j`-th of these positions in the larger one. The
argument is a simulation along this list: a rule that got a credit is not named as unmatched, so it
is still there, and it is still the first to cover its findings (`creditFor?_of_isPruned`).
-/

namespace FindingFilter

namespace RuleStore

/-- No flag is set. -/
def IsFresh (store : RuleStore) : Prop :=
  ∀ flag ∈ store.flags, flag = false

/-- The positions that are left when the dead ones are taken out, in order. -/
def positionsWithout (store : RuleStore) (dead : List Nat) : List Nat :=
  (List.range store.size).filter fun position => !dead.contains position

/-- The rules that are left when those at the dead positions are taken out, in order. -/
def rulesWithout (store : RuleStore) (dead : List Nat) : List Rule :=
  (store.positionsWithout dead).filterMap fun position => store.rules[position]?

theorem IsFresh.isMatched_eq_false {store : RuleStore} (h : store.IsFresh) (position : Nat) :
    store.isMatched position = false := by
  rw [isMatched, Array.getD_eq_getD_getElem?]
  cases hflag : store.flags[position]? with
  | none => rfl
  | some flag => exact h flag (Array.mem_of_getElem? hflag)

theorem mem_positionsWithout {store : RuleStore} {dead : List Nat} {position : Nat} :
    position ∈ store.positionsWithout dead ↔ position < store.size ∧ position ∉ dead := by
  simp [positionsWithout]

theorem pairwise_positionsWithout (store : RuleStore) (dead : List Nat) :
    (store.positionsWithout dead).Pairwise (· < ·) :=
  List.pairwise_lt_range.filter _

/-- No position is left twice. -/
theorem eq_of_position {store : RuleStore} {dead : List Nat} {j other position : Nat}
    (hj : (store.positionsWithout dead)[j]? = some position)
    (hother : (store.positionsWithout dead)[other]? = some position) : j = other := by
  have hnodup : (store.positionsWithout dead).Nodup :=
    (pairwise_positionsWithout store dead).imp Nat.ne_of_lt
  have hlt : j < (store.positionsWithout dead).length := (List.getElem?_eq_some_iff.mp hj).1
  exact (List.getElem?_inj hlt hnodup).mp (hj.trans hother.symm)

/-- Reading the `j`-th rule that is left is reading the rule at the `j`-th position that is left:
every such position has a rule. -/
theorem getElem?_rulesWithout (store : RuleStore) (dead : List Nat) (j : Nat) :
    (store.rulesWithout dead)[j]? =
      (store.positionsWithout dead)[j]?.bind fun position => store.rules[position]? := by
  have hrule : ∀ position ∈ store.positionsWithout dead, position < store.rules.size :=
    fun position hmem => (mem_positionsWithout.mp hmem).1
  rw [rulesWithout]
  generalize store.positionsWithout dead = kept at hrule ⊢
  induction kept generalizing j with
  | nil => rfl
  | cons position rest ih =>
    obtain ⟨rule, hread⟩ : ∃ rule, store.rules[position]? = some rule :=
      ⟨_, Array.getElem?_eq_getElem (hrule position List.mem_cons_self)⟩
    rw [List.filterMap_cons, hread]
    cases j with
    | zero => simp [hread]
    | succ j => exact ih j fun other hmem => hrule other (List.mem_cons_of_mem _ hmem)

end RuleStore

namespace Filter

/-- The filter has the settings of another filter and its rules but those at the dead positions, in
the same order, and no flag is set. -/
structure IsPruned (filter pruned : Filter) (dead : List Nat) : Prop where
  reachable : pruned.store.Reachable
  fresh : pruned.store.IsFresh
  matching : pruned.store.matching = filter.store.matching
  rules : pruned.store.rules.toList = filter.store.rulesWithout dead
  unusedFunctions : pruned.unusedFunctions = filter.unusedFunctions
  reportsUnmatched : pruned.reportsUnmatched = filter.reportsUnmatched

/-- The report on a run names the rule if it covers nothing: it is about one of the files of the run
or about no single file, and it is about unused functions only if they were looked for. Where the
rule stands does not matter. -/
def AsksFor (filter : Filter) (files : List String) (rule : Rule) : Prop :=
  ((∃ file ∈ files,
      rule.scope filter.store.matching = .oneFile ∧ rule.file = Path.canonical file) ∨
    rule.scope filter.store.matching = .anyFile) ∧
  (filter.unusedFunctions = true ∨ rule.id ≠ Rule.unusedFunctionId)

/-! ## What a report names -/

theorem mem_idlePositions_iff {filter : Filter} {files : List String} {position : Nat}
    (h : filter.store.WellFormed) :
    position ∈ filter.idlePositions files ↔
      ∃ rule, filter.store.rules[position]? = some rule ∧ filter.AsksFor files rule ∧
        filter.store.isMatched position = false := by
  simp only [idlePositions, List.mem_append, List.mem_flatMap, h.mem_idleIn_iff,
    h.mem_idleAcross_iff, RuleStore.isDue, AsksFor, Bool.and_eq_true, Bool.or_eq_true,
    Bool.not_eq_true', bne_iff_ne]
  constructor
  · rintro (⟨file, hfile, rule, hread, habout, hunmatched, hexempt⟩ |
      ⟨rule, hread, hacross, hunmatched, hexempt⟩)
    · exact ⟨rule, hread, ⟨Or.inl ⟨file, hfile, habout⟩, hexempt⟩, hunmatched⟩
    · exact ⟨rule, hread, ⟨Or.inr hacross, hexempt⟩, hunmatched⟩
  · rintro ⟨rule, hread, ⟨⟨file, hfile, habout⟩ | hacross, hexempt⟩, hunmatched⟩
    · exact Or.inl ⟨file, hfile, rule, hread, habout, hunmatched, hexempt⟩
    · exact Or.inr ⟨rule, hread, hacross, hunmatched, hexempt⟩

/-- **What the report on a first run names**: the rules that it asks for and that got no credit. -/
theorem mem_reported_iff {filter : Filter} {findings : List Finding} {checked : List String}
    {position : Nat} (h : filter.store.WellFormed) (hfresh : filter.store.IsFresh) :
    position ∈ filter.reported findings checked ↔
      ∃ rule, filter.store.rules[position]? = some rule ∧
        filter.AsksFor (filesOf checked findings) rule ∧
        ∀ finding ∈ findings, filter.store.creditFor? finding ≠ some position := by
  obtain ⟨flags, -, hafter⟩ :=
    RuleStore.markCredits_eq filter.store (findings.map filter.store.creditFor?)
  have hmatched := RuleStore.isMatched_markCredits filter.store
    (findings.map filter.store.creditFor?) position
  rw [hfresh.isMatched_eq_false, Bool.false_or] at hmatched
  rw [reported, apply_eq, mem_idlePositions_iff (h.markCredits _)]
  simp only [hmatched]
  rw [hafter]
  apply exists_congr
  intro rule
  apply and_congr_right
  intro hread
  have hlt : position < filter.store.flags.size := by
    rw [h.size_flags]
    exact (Array.getElem?_eq_some_iff.mp hread).1
  apply and_congr_right
  intro
  rw [decide_eq_true hlt, Bool.and_true, ← Bool.not_eq_true, List.contains_iff_mem, List.mem_map]
  simp only [not_exists, not_and]

/-! ## The smaller store -/

section IsPruned

variable {filter pruned : Filter} {dead : List Nat} (h : filter.IsPruned pruned dead)

include h

theorem getElem?_rules_of_isPruned (j : Nat) :
    pruned.store.rules[j]? =
      (filter.store.positionsWithout dead)[j]?.bind fun position => filter.store.rules[position]? := by
  rw [← RuleStore.getElem?_rulesWithout, ← h.rules, Array.getElem?_toList]

/-- Positions correspond: the rule at `j` is the one at the `j`-th position that is left. -/
theorem getElem?_rules_of_position {j position : Nat}
    (hj : (filter.store.positionsWithout dead)[j]? = some position) :
    pruned.store.rules[j]? = filter.store.rules[position]? := by
  rw [getElem?_rules_of_isPruned h, hj, Option.bind_some]

theorem exists_position_of_lt {j : Nat} (hj : j < pruned.store.size) :
    ∃ position, (filter.store.positionsWithout dead)[j]? = some position := by
  have hread := getElem?_rules_of_isPruned h j
  rw [Array.getElem?_eq_getElem hj] at hread
  cases hposition : (filter.store.positionsWithout dead)[j]? with
  | none => rw [hposition] at hread; cases hread
  | some position => exact ⟨position, rfl⟩

theorem coversAt_of_isPruned {j position : Nat}
    (hj : (filter.store.positionsWithout dead)[j]? = some position) (finding : Finding) :
    pruned.store.coversAt finding j = filter.store.coversAt finding position := by
  rw [RuleStore.coversAt, RuleStore.coversAt, getElem?_rules_of_position h hj, h.matching]

/-- **A credit moves with its rule.** If the rule with the credit is left, it has the credit in the
smaller store too: every rule in front of it there stood in front of it before. -/
theorem creditFor?_of_isPruned {finding : Finding} {position : Nat}
    (hcredit : filter.store.creditFor? finding = some position) (hleft : position ∉ dead) :
    ∃ j, (filter.store.positionsWithout dead)[j]? = some position ∧
      pruned.store.creditFor? finding = some j := by
  obtain ⟨hlt, hcovers, hfirst⟩ := RuleStore.creditFor?_eq_some_iff.mp hcredit
  obtain ⟨j, hj⟩ := List.getElem?_of_mem (RuleStore.mem_positionsWithout.mpr ⟨hlt, hleft⟩)
  refine ⟨j, hj, RuleStore.creditFor?_eq_some_iff.mpr ⟨?_, ?_, ?_⟩⟩
  · have hrule := getElem?_rules_of_position h hj
    rw [Array.getElem?_eq_getElem hlt] at hrule
    exact (Array.getElem?_eq_some_iff.mp hrule).1
  · rw [coversAt_of_isPruned h hj, hcovers]
  · intro earlier hearlier
    obtain ⟨hjlt, hjeq⟩ := List.getElem?_eq_some_iff.mp hj
    have hearlier' : (filter.store.positionsWithout dead)[earlier]? =
        some (filter.store.positionsWithout dead)[earlier] := List.getElem?_eq_getElem _
    have hbefore : (filter.store.positionsWithout dead)[earlier] < position := by
      rw [← hjeq]
      exact List.pairwise_iff_getElem.mp (RuleStore.pairwise_positionsWithout ..) _ _ _ _ hearlier
    rw [coversAt_of_isPruned h hearlier', hfirst _ hbefore]

/-- A finding that nothing covered is not covered by fewer rules. -/
theorem creditFor?_eq_none_of_isPruned {finding : Finding}
    (hcredit : filter.store.creditFor? finding = none) :
    pruned.store.creditFor? finding = none := by
  rw [← Option.not_isSome_iff_eq_none, RuleStore.creditFor?_isSome_iff] at hcredit ⊢
  rintro ⟨j, hlt, hcovers⟩
  obtain ⟨position, hj⟩ := exists_position_of_lt h hlt
  rw [coversAt_of_isPruned h hj] at hcovers
  have hposition := RuleStore.mem_positionsWithout.mp (List.mem_of_getElem? hj)
  exact hcredit ⟨position, hposition.1, hcovers⟩

end IsPruned

/-- The rules that are left can be loaded again: each of them has passed the check. -/
theorem exists_isPruned {filter : Filter} (h : filter.store.WellFormed)
    (hfresh : filter.store.IsFresh) (dead : List Nat) :
    ∃ pruned, filter.IsPruned pruned dead := by
  have hleft : ∀ rule ∈ filter.store.rulesWithout dead,
      rule.check = .ok () ∧ rule.matched = false := by
    intro rule hmem
    obtain ⟨position, -, hread⟩ := List.mem_filterMap.mp hmem
    refine ⟨h.check_rule rule (Array.mem_of_getElem? hread), ?_⟩
    cases hmatched : rule.matched with
    | false => rfl
    | true =>
      have hset := h.isMatched_of_matched hread hmatched
      rw [hfresh.isMatched_eq_false] at hset
      cases hset
  let loaded := (RuleStore.empty filter.store.matching).addAll (filter.store.rulesWithout dead)
  obtain ⟨hmatching, hrules, hflags⟩ := RuleStore.addAll_of_check
    (RuleStore.empty filter.store.matching) fun rule hmem => (hleft rule hmem).1
  refine ⟨{ filter with store := loaded.store }, ?_, ?_, hmatching, hrules, rfl, rfl⟩
  · exact (RuleStore.Reachable.empty filter.store.matching).addAll _
  · intro flag hflag
    rw [← Array.mem_toList_iff, hflags] at hflag
    obtain ⟨rule, hmem, rfl⟩ := List.mem_map.mp hflag
    exact (hleft rule hmem).2

/-! ## The second run -/

section Rerun

variable {filter pruned : Filter} {findings : List Finding} {checked : List String}
  (hwell : filter.store.WellFormed) (hfresh : filter.store.IsFresh)
  (h : filter.IsPruned pruned (filter.reported findings checked))

include hwell hfresh h

/-- A rule with a credit is not reported, so it is left and has the credit again. -/
theorem exists_credit_of_isPruned {finding : Finding} (hmem : finding ∈ findings)
    {position : Nat} (hcredit : filter.store.creditFor? finding = some position) :
    ∃ j, (filter.store.positionsWithout (filter.reported findings checked))[j]? = some position ∧
      pruned.store.creditFor? finding = some j := by
  apply creditFor?_of_isPruned h hcredit
  intro hreported
  obtain ⟨rule, -, -, hno⟩ := (mem_reported_iff hwell hfresh).mp hreported
  exact hno finding hmem hcredit

/-- The same findings have a credit, though at other positions. -/
theorem isSome_creditFor?_of_isPruned {finding : Finding} (hmem : finding ∈ findings) :
    (pruned.store.creditFor? finding).isSome = (filter.store.creditFor? finding).isSome := by
  cases hcredit : filter.store.creditFor? finding with
  | none => rw [creditFor?_eq_none_of_isPruned h hcredit]
  | some position =>
    obtain ⟨j, -, hpruned⟩ := exists_credit_of_isPruned hwell hfresh h hmem hcredit
    rw [hpruned]
    rfl

/-- Every rule that is left and asked for got a credit before, and gets it again. -/
theorem reported_of_isPruned : pruned.reported findings checked = [] := by
  rw [List.eq_nil_iff_forall_not_mem]
  intro j hreported
  obtain ⟨rule, hread, hasks, hno⟩ :=
    (mem_reported_iff h.reachable.wellFormed h.fresh).mp hreported
  obtain ⟨position, hj⟩ := exists_position_of_lt h (Array.getElem?_eq_some_iff.mp hread).1
  have hread' : filter.store.rules[position]? = some rule := by
    rw [← getElem?_rules_of_position h hj, hread]
  have hasks' : filter.AsksFor (filesOf checked findings) rule := by
    rw [AsksFor, h.matching, h.unusedFunctions] at hasks
    exact hasks
  -- Without a credit in the first run the rule would not be left.
  apply (RuleStore.mem_positionsWithout.mp (List.mem_of_getElem? hj)).2
  refine (mem_reported_iff hwell hfresh).mpr ⟨rule, hread', hasks', ?_⟩
  intro finding hmem hcredit
  obtain ⟨other, hother, hpruned⟩ := exists_credit_of_isPruned hwell hfresh h hmem hcredit
  rw [← RuleStore.eq_of_position hj hother] at hpruned
  exact hno finding hmem hpruned

end Rerun

/-- **Rules that a report calls unmatched can go.** The report on a first run names the rules at the
reported positions. Load what is left without them, and run again: the same findings are reported,
as many are suppressed, and no rule is named. -/
theorem apply_of_isPruned {filter : Filter} (hreachable : filter.store.Reachable)
    (hfresh : filter.store.IsFresh) (hreports : filter.reportsUnmatched = true)
    (findings : List Finding) (checked : List String) :
    (filter.apply findings checked).1.unmatched =
        (filter.reported findings checked).filterMap
          (filter.apply findings checked).2.store.ruleAt? ∧
      (∃ pruned, filter.IsPruned pruned (filter.reported findings checked)) ∧
      ∀ pruned, filter.IsPruned pruned (filter.reported findings checked) →
        (pruned.apply findings checked).1 =
          { (filter.apply findings checked).1 with unmatched := [] } := by
  have hwell := hreachable.wellFormed
  refine ⟨?_, exists_isPruned hwell hfresh _, ?_⟩
  · rw [unmatched_apply, if_pos hreports]
  · intro pruned h
    have hsame : ∀ finding ∈ findings,
        (pruned.store.creditFor? finding).isSome = (filter.store.creditFor? finding).isSome :=
      fun finding hmem => isSome_creditFor?_of_isPruned hwell hfresh h hmem
    have hkept : (pruned.apply findings checked).1.findings =
        (filter.apply findings checked).1.findings := by
      rw [apply_eq, apply_eq]
      apply List.filter_congr
      intro finding hmem
      rw [← Option.not_isSome, ← Option.not_isSome, hsame finding hmem]
    have hsuppressed : (pruned.apply findings checked).1.suppressed =
        (filter.apply findings checked).1.suppressed := by
      rw [apply_eq, apply_eq]
      apply congrArg UInt64.ofNat
      apply List.countP_congr
      intro finding hmem
      rw [hsame finding hmem]
    have hunmatched : (pruned.apply findings checked).1.unmatched = [] := by
      rw [unmatched_apply, reported_of_isPruned hwell hfresh h, List.filterMap_nil, ite_self]
    show _ = Report.mk _ _ _
    rw [← hkept, ← hsuppressed, ← hunmatched]

/-- Two of three rules name nothing and are taken out; the third stays first in line. -/
theorem apply_without_two_rules :
    let store := ((RuleStore.empty .literal).perform (.addLine "nullPointer:a.c")).perform
      (.addText "uninitvar\nmemleak")
    let filter := Filter.ofStore store
    let findings : List Finding := [{ id := "memleak", file := "b.c" }, { id := "zerodiv" }]
    filter.store.Reachable ∧ filter.store.IsFresh ∧ filter.reportsUnmatched = true ∧
      (filter.apply findings ["a.c"]).1.unmatched =
        (filter.reported findings ["a.c"]).filterMap
          (filter.apply findings ["a.c"]).2.store.ruleAt? ∧
      (∃ pruned, filter.IsPruned pruned (filter.reported findings ["a.c"])) ∧
      ∀ pruned, filter.IsPruned pruned (filter.reported findings ["a.c"]) →
        (pruned.apply findings ["a.c"]).1 =
          { (filter.apply findings ["a.c"]).1 with unmatched := [] } := by
  intro store filter findings
  have hreachable : store.Reachable := ((RuleStore.Reachable.empty .literal).perform _).perform _
  have hfresh : store.IsFresh := by
    have hflags : store.flags = #[false, false, false] := by decide +kernel
    rw [RuleStore.IsFresh, hflags]
    simp
  exact ⟨hreachable, hfresh, rfl, apply_of_isPruned hreachable hfresh rfl findings ["a.c"]⟩

end Filter

end FindingFilter
