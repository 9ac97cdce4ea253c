import FindingFilter.Proofs.Rule.LineForm
import FindingFilter.Proofs.RuleStore.Acceptance

/-!
# Rule stores — texts put together

Two rule texts with line breaks in between can be loaded as one text, or one after the other. Both
come to the same, since the line breaks keep the last line of the first text apart from the first
line of the second (`Rule.ruleLines_append_breaks`), and adding two lists of rules in a row is adding
the one and then, unless it stopped, the other (`addAll_append_eq_andThen`). What stands between the
texts does not matter beyond that: neither the kind nor the number of the line breaks.
-/

namespace FindingFilter

/-- Goes on with what is left to load, unless the loading has stopped already. -/
def Loading.andThen (loading : Loading) (next : RuleStore → Loading) : Loading :=
  match loading.failure with
  | none => next loading.store
  | some _ => loading

theorem Rule.ofText_append_breaks {breaks : String} (hbreaks : Text.IsBreak breaks.toList)
    (before after : String) :
    ofText (before ++ breaks ++ after) = ofText before ++ ofText after := by
  have hlines : ruleLines (before ++ breaks ++ after).toList =
      ruleLines before.toList ++ ruleLines after.toList := by
    rw [String.toList_append, String.toList_append, List.append_assoc,
      ruleLines_append_breaks hbreaks]
  rw [ofText, hlines, List.map_append]
  rfl

theorem Rule.ofText_of_isRebroken {content other : String}
    (h : Text.IsRebroken content.toList other.toList) : ofText other = ofText content := by
  have hlines : ruleLines other.toList = ruleLines content.toList := ruleLines_of_isRebroken h []
  rw [ofText, ofText, hlines]

namespace RuleStore

/-- Rules are added in order, so those at the end are added to what the others left, if none of the
others was refused. -/
theorem addAll_append_eq_andThen (store : RuleStore) (rules more : List Rule) :
    store.addAll (rules ++ more) =
      (store.addAll rules).andThen fun store => store.addAll more := by
  induction rules generalizing store with
  | nil => rfl
  | cons rule rules ih =>
    rw [List.cons_append, addAll, addAll]
    cases hadd : store.add rule with
    | ok changed => exact ih changed
    | error cause => rfl

/-- **Loading a text is loading its parts.** Cut a text at any run of line breaks: loading it does
what loading the first part does and, if that comes to its end, loading the second part then; the
store is the same, and so is what stops the loading. So line breaks may be replaced by others, at one
place or at many, and by more of them or fewer: nothing about the loading changes. -/
theorem addText_append_breaks (store : RuleStore) :
    (∀ before breaks after : String, Text.IsBreak breaks.toList →
      store.addText (before ++ breaks ++ after) =
        (store.addText before).andThen fun store => store.addText after) ∧
      ∀ content other : String, Text.IsRebroken content.toList other.toList →
        store.addText other = store.addText content := by
  constructor
  · intro before breaks after hbreaks
    show store.addAll (Rule.ofText (before ++ breaks ++ after)) = _
    rw [Rule.ofText_append_breaks hbreaks, addAll_append_eq_andThen]
    rfl
  · intro content other h
    show store.addAll (Rule.ofText other) = store.addAll (Rule.ofText content)
    rw [Rule.ofText_of_isRebroken h]

/-- A comment, a rule and a refused line, cut between a carriage return and its line feed; and the
same text with other line breaks. -/
theorem addText_append_breaks_mixed :
    let store := ((empty .glob).addText "leak:*.c").store
    let content := "// rules\nnull:a.c\r\n1bad"
    let other := "// rules\nnull:a.c\n\r\r1bad"
    Text.IsBreak "\r".toList ∧ Text.IsRebroken content.toList other.toList ∧
      store.addText ("// rules\nnull:a.c" ++ "\r" ++ "\n1bad") =
        (store.addText "// rules\nnull:a.c").andThen (fun store => store.addText "\n1bad") ∧
      store.addText other = store.addText content ∧
      (store.addText content).store.size = 2 ∧
      (store.addText content).failure = some (.rule (.invalidId "1bad")) := by
  intro store content other
  have hbreak : Text.IsBreak "\r".toList := ⟨by decide, by simp [Text.isLineBreak_iff]⟩
  have hrebroken : Text.IsRebroken content.toList other.toList := by
    have hcontent : content.toList =
        "// rules\nnull:a.c".toList ++ (['\r', '\n'] ++ "1bad".toList) := by
      decide
    have hother : other.toList =
        "// rules\nnull:a.c".toList ++ (['\n', '\r', '\r'] ++ "1bad".toList) := by
      decide
    rw [hcontent, hother]
    have hpair : Text.IsBreak ['\r', '\n'] := Text.isBreak_lineEnd .both
    have hthree : Text.IsBreak ['\n', '\r', '\r'] := ⟨by decide, by simp [Text.isLineBreak_iff]⟩
    exact .replace hpair hthree _ _
  obtain ⟨hparts, hsame⟩ := addText_append_breaks store
  exact ⟨hbreak, hrebroken, hparts _ _ _ hbreak, hsame _ _ hrebroken, by decide +kernel,
    by decide +kernel⟩

end RuleStore

end FindingFilter
