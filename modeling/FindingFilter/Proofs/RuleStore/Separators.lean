import FindingFilter.Proofs.RuleStore.Acceptance
import FindingFilter.Proofs.Rule.LineForm
import FindingFilter.Proofs.Text.Separators

/-!
# Rule stores — texts with separators of either kind

A rule keeps the canonical form of its file, so a line may name the file with separators of either
kind (`Rule.ofLine_of_isRespelled`). That the separators are rewritten last of all, behind every
other look at the line, makes no difference: the colons, the dots and the number are where they
were (`Rule.placeOf_map_slash`).

A line could still become a comment, as `//` may come out of `\/`. It cannot in a text whose rules
are all accepted, since such a line begins with an id (`Rule.isKept_of_check`).
-/

namespace FindingFilter

namespace Rule

/-! ## One line -/

/-- **What a place says does not depend on its separators**, apart from those of the file. -/
theorem placeOf_map_slash (place : List Char) :
    placeOf (place.map Text.slash) = ((placeOf place).1.map Text.slash, (placeOf place).2) := by
  rw [placeOf, placeOf, Text.cutLast?_map_slash (by decide) (by decide)]
  cases Text.cutLast? ':' place with
  | none => rfl
  | some parts =>
    obtain ⟨file, tail⟩ := parts
    have hdot : (tail.map Text.slash).contains '.' = tail.contains '.' := by
      rw [Bool.eq_iff_iff, List.contains_iff_mem, List.contains_iff_mem]
      exact Text.mem_map_slash_iff (by decide) (by decide)
    simp only [Option.map_some, hdot, Text.lineNumber_map_slash]
    generalize (if tail.contains '.' then 0 else Text.lineNumber tail) = line
    by_cases hline : line = 0
    · rw [if_pos hline, if_pos hline]
    · rw [if_neg hline, if_neg hline]

/-- **A line with other separators says the same rule**, if its id has none. -/
theorem ofLine_of_isRespelled {line other : String}
    (h : Text.IsRespelled line.toList other.toList) (hid : '\\' ∉ (ofLine line).id.toList) :
    ofLine other = ofLine line := by
  cases hcut : Text.cutFirst? ':' line.toList with
  | none =>
    -- The whole line is the id, so there is no other way to spell it.
    have hline : ofLine line = { id := line } :=
      ofLine_of_not_mem (Text.cutFirst?_eq_none_iff.mp hcut)
    rw [hline] at hid
    rw [String.toList_inj.mp (h.eq_of_not_mem hid)]
  | some parts =>
    obtain ⟨id, place⟩ := parts
    have hcolon : ':' ∉ id := Text.not_mem_of_cutFirst? hcut
    have hline : line = String.ofList (id ++ ':' :: place) := by
      rw [← Text.eq_of_cutFirst? hcut, String.ofList_toList]
    rw [hline, ofLine_append hcolon, String.toList_ofList] at hid
    rw [Text.eq_of_cutFirst? hcut] at h
    obtain ⟨id', place', hid', hplace, hother⟩ := h.exists_append_cons (by decide)
    obtain rfl : id' = id := hid'.eq_of_not_mem hid
    have hother' : other = String.ofList (id' ++ ':' :: place') := by
      rw [← hother, String.ofList_toList]
    -- The two places have one canonical form, and so have the files in them.
    have hparts := congrArg placeOf hplace.map_slash
    rw [placeOf_map_slash, placeOf_map_slash, Prod.mk.injEq] at hparts
    obtain ⟨hfile, hnumber⟩ := hparts
    have hcanonical : Path.canonical (String.ofList (placeOf place').1) =
        Path.canonical (String.ofList (placeOf place).1) := by
      rw [← String.toList_inj, toList_canonical, toList_canonical, String.toList_ofList,
        String.toList_ofList, hfile]
    rw [hline, hother', ofLine_append hcolon, ofLine_append hcolon, hcanonical, hnumber]

/-! ## The lines of a text -/

theorem isPrefix_id_ofLine (line : String) : (ofLine line).id.toList <+: line.toList := by
  cases hcut : Text.cutFirst? ':' line.toList with
  | none =>
    rewrite [ofLine_of_not_mem (Text.cutFirst?_eq_none_iff.mp hcut)]
    exact List.prefix_rfl
  | some parts =>
    obtain ⟨id, place⟩ := parts
    have hline := Text.eq_of_cutFirst? hcut
    have hread := ofLine_append (Text.not_mem_of_cutFirst? hcut) place
    rw [← hline, String.ofList_toList] at hread
    rw [hread, hline, String.toList_ofList]
    exact List.prefix_append id _

/-- An accepted id has no backslash in it. -/
theorem not_mem_id_of_check {rule : Rule} (hcheck : rule.check = .ok ()) :
    '\\' ∉ rule.id.toList := by
  intro hmem
  have hclass := class_of_mem_id hcheck hmem
  revert hclass
  unfold IsLetter IsDigit
  decide

variable {line other : List Char}

/-- A line with an accepted id still holds a rule when it is respelled: it begins with the id, which
is no beginning of a comment. -/
theorem isKept_of_check (h : Text.IsRespelled line other)
    (hcheck : (ofLine (String.ofList line)).check = .ok ()) : isKept other = true := by
  obtain ⟨first, rest, hid, hslash⟩ := exists_cons_of_check hcheck
  have hprefix : first :: rest <+: line := by
    have hread := isPrefix_id_ofLine (String.ofList line)
    rwa [hid, String.toList_ofList] at hread
  have hback : '\\' ∉ first :: rest := hid ▸ not_mem_id_of_check hcheck
  obtain ⟨tail, rfl⟩ := h.prefix_of_not_mem hback hprefix
  refine isKept_iff.mpr ⟨List.cons_ne_nil _ _, fun hcomment => ?_⟩
  exact hslash (List.cons_prefix_cons.mp hcomment).1.symm

/-- An empty line stays empty, and a comment a comment. -/
theorem isKept_of_isKept (h : Text.IsRespelled line other) (hkept : isKept other = true) :
    isKept line = true := by
  obtain ⟨hne, hcomment⟩ := isKept_iff.mp hkept
  refine isKept_iff.mpr ⟨?_, fun hline => hcomment (h.prefix_of_not_mem (by decide) hline)⟩
  rintro rfl
  cases h
  exact hne rfl

/-- **A text of accepted rules holds the same rules when it is respelled.** -/
theorem ofText_of_isRespelled {content other : String}
    (h : Text.IsRespelled content.toList other.toList)
    (haccepted : ∀ rule ∈ ofText content, rule.check = .ok ()) : ofText other = ofText content := by
  have hpieces : List.Forall₂ Text.IsRespelled (Text.splitAt Text.isLineBreak content.toList)
      (Text.splitAt Text.isLineBreak other.toList) := Text.forall₂_splitAt (by decide) h
  rw [ofText, ruleLines] at haccepted ⊢
  rw [ofText, ruleLines]
  -- Line by line: what holds a rule holds the same rule, and what holds none holds none.
  generalize Text.splitAt Text.isLineBreak content.toList = pieces at hpieces haccepted ⊢
  generalize Text.splitAt Text.isLineBreak other.toList = others at hpieces ⊢
  induction hpieces with
  | nil => rfl
  | @cons line other pieces others hline _ ih =>
    by_cases hkept : isKept line = true
    · rw [List.filter_cons_of_pos hkept, List.map_cons, List.forall_mem_cons] at haccepted
      obtain ⟨hcheck, hrest⟩ := haccepted
      have hsame : ofLine (String.ofList other) = ofLine (String.ofList line) := by
        refine ofLine_of_isRespelled ?_ (not_mem_id_of_check hcheck)
        rwa [String.toList_ofList, String.toList_ofList]
      rw [List.filter_cons_of_pos hkept, List.filter_cons_of_pos (isKept_of_check hline hcheck),
        List.map_cons, List.map_cons, hsame, ih hrest]
    · rw [List.filter_cons_of_neg hkept] at haccepted ⊢
      rw [List.filter_cons_of_neg (mt (isKept_of_isKept hline) hkept), ih haccepted]

end Rule

namespace RuleStore

/-- A text is loaded to its end exactly if all of its rules are accepted. -/
theorem failure_addText_eq_none_iff (store : RuleStore) (content : String) :
    (store.addText content).failure = none ↔
      ∀ rule ∈ Rule.ofText content, rule.check = .ok () := by
  show (store.addAll (Rule.ofText content)).failure = none ↔ _
  obtain ⟨accepted, rest, failure, hrules, haccepted, hstop⟩ := exists_stopsAt (Rule.ofText content)
  rw [hrules, addAll_append haccepted, addAll_of_stopsAt hstop]
  cases hstop with
  | atEnd => simpa using haccepted
  | @atRefused rule cause hrefused rest =>
    refine iff_of_false (by simp) fun hall => ?_
    have hok := hall rule (List.mem_append_right _ List.mem_cons_self)
    rw [hrefused] at hok
    cases hok

/-- **Which separators a text has does not matter.** Write some of the backslashes of a text as `/`,
wherever they are: if the text is loaded to its end, the other is, and it leaves the same store, in
every mode. For a single line that is so because the two lines say one rule, with the same id, file
and line number, and so with the same scope. -/
theorem addText_of_isRespelled (store : RuleStore) :
    (∀ content other : String, Text.IsRespelled content.toList other.toList →
      (store.addText content).failure = none →
        (store.addText other).failure = none ∧
          (store.addText other).store = (store.addText content).store) ∧
      ∀ line other : String, Text.IsRespelled line.toList other.toList →
        (Rule.ofLine line).check = .ok () →
          (Rule.ofLine other).check = .ok () ∧ Rule.ofLine other = Rule.ofLine line ∧
            (Rule.ofLine other).scope store.matching = (Rule.ofLine line).scope store.matching := by
  refine ⟨fun content other h hloaded => ?_, fun line other h hcheck => ?_⟩
  · have haccepted := (failure_addText_eq_none_iff store content).mp hloaded
    have hsame : store.addText other = store.addText content := by
      show store.addAll (Rule.ofText other) = store.addAll (Rule.ofText content)
      rw [Rule.ofText_of_isRespelled h haccepted]
    rw [hsame]
    exact ⟨hloaded, rfl⟩
  · have hsame := Rule.ofLine_of_isRespelled h (Rule.not_mem_id_of_check hcheck)
    rw [hsame]
    exact ⟨hcheck, rfl, rfl⟩

/-- A comment, a drive letter, and a number that ends in a backslash; three backslashes of the four
outside the comment are rewritten. -/
theorem addText_of_isRespelled_drive :
    let store := ((empty .glob).addText "leak:*.c").store
    let content := "// a\\b\nnull:C:\\src\\a.c:7\\\r\nmem:x\\*.h"
    let other := "// a\\b\nnull:C:/src\\a.c:7/\r\nmem:x/*.h"
    Text.IsRespelled content.toList other.toList ∧ (store.addText content).failure = none ∧
      (store.addText other).failure = none ∧
      (store.addText other).store = (store.addText content).store ∧
      (store.addText other).store.toList =
        [{ id := "leak", file := "*.c" }, { id := "null", file := "C:/src/a.c", line := 7 },
          { id := "mem", file := "x/*.h" }] := by
  intro store content other
  have hrespelled : Text.IsRespelled content.toList other.toList := by decide
  have hloaded : (store.addText content).failure = none := by decide +kernel
  obtain ⟨hfailure, hstore⟩ := (addText_of_isRespelled store).1 content other hrespelled hloaded
  exact ⟨hrespelled, hloaded, hfailure, hstore, by decide +kernel⟩

end RuleStore

end FindingFilter
