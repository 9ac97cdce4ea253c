import FindingFilter.Proofs.Rule.LineForm
import FindingFilter.Proofs.RuleStore.Acceptance
import Mathlib.Data.List.Basic

/-!
# Rule stores — rules written out and loaded again

A line can say the same rule in many ways, and a text can hold lines that say none. Loading forgets
which way it was; writing the rules out picks one way. The two meet at the rules themselves: the
rules of a store that was loaded from a text are accepted, and each was read from a line, so each
line form is a line that holds a rule (`Rule.isRuleLine_lineForm`) and says that rule
(`Rule.ofLine_lineForm`). Nothing is lost on the way back, then, and loading stops nowhere.
-/

namespace FindingFilter.RuleStore

variable {store : RuleStore}

/-! ## The rules of a store as a list -/

theorem toList_entered (hsize : store.flags.size = store.rules.size) (rule : Rule) :
    (store.entered rule).toList = store.toList ++ [rule] := by
  -- The rules before keep their flags, and the new one has the flag that came with it.
  have hbefore : ∀ position ∈ List.range store.size,
      (store.entered rule).ruleAt? position = store.ruleAt? position := by
    intro position hmem
    have hne : position ≠ store.size := Nat.ne_of_lt (List.mem_range.mp hmem)
    rw [ruleAt?, ruleAt?, getElem?_rules_entered, isMatched_entered store rule hsize, if_neg hne,
      if_neg hne]
  have hnew : (store.entered rule).ruleAt? store.size = some rule := by
    rw [ruleAt?, getElem?_rules_entered, isMatched_entered store rule hsize, if_pos rfl, if_pos rfl]
    rfl
  rw [toList, size_entered, List.range_succ, List.filterMap_append, List.filterMap_congr hbefore]
  simp only [List.filterMap_cons, List.filterMap_nil, hnew]
  rfl

theorem toList_enterAll (hsize : store.flags.size = store.rules.size) (rules : List Rule) :
    (store.enterAll rules).toList = store.toList ++ rules := by
  induction rules generalizing store with
  | nil => exact (List.append_nil _).symm
  | cons rule rules ih =>
    have hentered : (store.entered rule).flags.size = (store.entered rule).rules.size := by
      simp [entered, hsize]
    rw [enterAll_cons, ih hentered, toList_entered hsize, List.append_assoc, List.singleton_append]

/-! ## The round trip -/

/-- The line forms of the rules of a store. -/
def lineForms (store : RuleStore) : List (List Char) :=
  store.toList.map fun rule => rule.lineForm.toList

/-- A text that is loaded into an empty store leaves the accepted rules at its beginning there. -/
theorem exists_accepted_of_addText (content : String) :
    ∃ accepted, accepted <+: Rule.ofText content ∧ (∀ rule ∈ accepted, rule.check = .ok ()) ∧
      ∀ matching, ((empty matching).addText content).store = (empty matching).enterAll accepted ∧
        ((empty matching).addText content).store.toList = accepted := by
  obtain ⟨accepted, rest, failure, hrules, haccepted, hstop⟩ := exists_stopsAt (Rule.ofText content)
  refine ⟨accepted, ⟨rest, hrules.symm⟩, haccepted, fun matching => ?_⟩
  have hload : (empty matching).addText content =
      { store := (empty matching).enterAll accepted, failure } := by
    show (empty matching).addAll (Rule.ofText content) = _
    rw [hrules, addAll_append haccepted, addAll_of_stopsAt hstop]
  rw [hload]
  exact ⟨rfl, toList_enterAll rfl accepted⟩

/-- Accepted rules of a text are the rules of every text that their line forms are joined into. -/
theorem ofText_of_isJoined {content rendered : String} {accepted : List Rule}
    (haccepted : ∀ rule ∈ accepted, rule ∈ Rule.ofText content ∧ rule.check = .ok ())
    (hjoined : Text.IsJoined (accepted.map fun rule => rule.lineForm.toList) rendered.toList) :
    Rule.ofText rendered = accepted := by
  have hlines : ∀ line ∈ accepted.map fun rule => rule.lineForm.toList, Rule.IsRuleLine line := by
    intro line hmem
    obtain ⟨rule, hrule, rfl⟩ := List.mem_map.mp hmem
    obtain ⟨hread, hcheck⟩ := haccepted rule hrule
    obtain ⟨source, hsource, rfl⟩ := List.mem_map.mp hread
    exact Rule.isRuleLine_lineForm (Rule.isRuleLine_of_mem_ruleLines hsource).isUnbroken hcheck
  have hback : ∀ rule ∈ accepted, Rule.ofLine (String.ofList rule.lineForm.toList) = id rule := by
    intro rule hrule
    obtain ⟨source, -, rfl⟩ := List.mem_map.mp (haccepted rule hrule).1
    rw [String.ofList_toList, Rule.ofLine_lineForm (Rule.isWritable_ofLine _), id]
  rw [Rule.ofText, Rule.ruleLines_of_isJoined hjoined hlines, List.map_map, Function.comp_def,
    List.map_congr_left hback, List.map_id]

/-- **Loaded rules can be written out and loaded again.** Whatever text the rules came from, and
wherever loading it stopped: their line forms, with line ends of any kind between them, are loaded
to the end, in every mode, and leave the same rules, and the same store as the text does. -/
theorem addText_of_isJoined (matching other : FileMatching) (content rendered : String)
    (hjoined : Text.IsJoined ((empty matching).addText content).store.lineForms rendered.toList) :
    ((empty other).addText rendered).failure = none ∧
      ((empty other).addText rendered).store = ((empty other).addText content).store ∧
      ((empty other).addText rendered).store.toList =
        ((empty matching).addText content).store.toList := by
  obtain ⟨accepted, hinitial, haccepted, hstore⟩ := exists_accepted_of_addText content
  rw [lineForms, (hstore matching).2] at hjoined
  have hread : ∀ rule ∈ accepted, rule ∈ Rule.ofText content ∧ rule.check = .ok () :=
    fun rule hmem => ⟨hinitial.mem hmem, haccepted rule hmem⟩
  have hload : (empty other).addText rendered = { store := (empty other).enterAll accepted } := by
    show (empty other).addAll (Rule.ofText rendered) = _
    rw [ofText_of_isJoined hread hjoined, addAll_of_accepted haccepted]
  rw [hload, (hstore other).1, (hstore matching).2]
  exact ⟨rfl, rfl, toList_enterAll rfl accepted⟩

/-- Comments, separators, what stands behind a number and the line that is refused are gone; the
rules are the same. -/
theorem addText_of_isJoined_mixed_lineEnds :
    let content := "//\nnull:a\\b:12x\r\rleak:c:3.h\n*::7\n1bad"
    let rendered := "null:a/b:12\r\nleak:c:3.h\r*::7\n"
    Text.IsJoined ((empty .literal).addText content).store.lineForms rendered.toList ∧
      ((empty .glob).addText rendered).failure = none ∧
      ((empty .glob).addText rendered).store.toList =
        [{ id := "null", file := "a/b", line := 12 }, { id := "leak", file := "c:3.h" },
          { id := "*", line := 7 }] := by
  intro content rendered
  have hrules : ((empty .literal).addText content).store.toList =
      [{ id := "null", file := "a/b", line := 12 }, { id := "leak", file := "c:3.h" },
        { id := "*", line := 7 }] := by
    decide +kernel
  have hjoined : Text.IsJoined ((empty .literal).addText content).store.lineForms
      rendered.toList := by
    have hforms : ((empty .literal).addText content).store.lineForms =
        ["null:a/b:12".toList, "leak:c:3.h".toList, "*::7".toList] := by
      rw [lineForms, hrules]
      decide +kernel
    have hrendered : rendered.toList = "null:a/b:12".toList ++ Text.LineEnd.both.text ++
        ("leak:c:3.h".toList ++ Text.LineEnd.carriageReturn.text ++
          ("*::7".toList ++ Text.LineEnd.lineFeed.text ++ [])) := by
      decide
    rw [hforms, hrendered]
    exact .cons _ .both (.cons _ .carriageReturn (.cons _ .lineFeed .nil))
  obtain ⟨hfailure, -, hback⟩ := addText_of_isJoined .literal .glob content rendered hjoined
  exact ⟨hjoined, hfailure, hback.trans hrules⟩

end FindingFilter.RuleStore
