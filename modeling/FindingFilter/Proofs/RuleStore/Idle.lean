import FindingFilter.Proofs.RuleStore.Indices

/-!
# Rule stores — which idle rules are told

Idle rules are asked for in two ways: file by file, and for all files at once. In a well-formed
store both answers can be told from the rules and flags alone, without the indices
(`idleIn_eq_where`, `idleAcross_eq_where`).

The rules about one file are entered under the name that the rule gives, and looked up under the
canonical form of the name that is asked for. So a rule is found under its own name if and only if
that name has no backslash. `Reachable.isTold_iff` says that this is the only way for an idle rule
to be missed, and `unmatchedIn_eq_nil_of_backslash` is a rule that is missed.
-/

namespace FindingFilter.RuleStore

/-- The rule at a position has covered nothing, and counts: rules about unused functions count only
if unused functions were looked for. -/
def isDue (store : RuleStore) (unusedFunctions : Bool) (position : Nat) (rule : Rule) : Bool :=
  !store.isMatched position && (unusedFunctions || rule.id != Rule.unusedFunctionId)

theorem isIdle_eq_isDue {store : RuleStore} {unusedFunctions : Bool} {position : Nat} {rule : Rule}
    (hread : store.rules[position]? = some rule) :
    store.isIdle unusedFunctions position = store.isDue unusedFunctions position rule := by
  rw [isIdle, hread]
  rfl

/-- The answers hold the rules at the idle positions, with their flags. -/
theorem ruleAt?_eq {store : RuleStore} {position : Nat} {rule : Rule}
    (hread : store.rules[position]? = some rule) :
    store.ruleAt? position = some { rule with matched := store.isMatched position } := by
  rw [ruleAt?, hread]
  rfl

section WellFormed

variable {store : RuleStore} (h : store.WellFormed)

include h

theorem WellFormed.idleIn_eq_where (file : String) (unusedFunctions : Bool) :
    store.idleIn file unusedFunctions = store.positionsWhere fun position rule =>
      (rule.scope store.matching == .oneFile && rule.file == Path.canonical file) &&
        store.isDue unusedFunctions position rule := by
  rw [idleIn, h.positionsIn_eq_where, filter_positionsWhere fun hread => isIdle_eq_isDue hread]

theorem WellFormed.idleAcross_eq_where (unusedFunctions : Bool) :
    store.idleAcross unusedFunctions = store.positionsWhere fun position rule =>
      rule.scope store.matching == .anyFile && store.isDue unusedFunctions position rule := by
  rw [idleAcross, h.acrossFiles_eq_where, filter_positionsWhere fun hread => isIdle_eq_isDue hread]

theorem WellFormed.pairwise_idleIn (file : String) (unusedFunctions : Bool) :
    (store.idleIn file unusedFunctions).Pairwise (· < ·) := by
  rw [h.idleIn_eq_where]
  exact pairwise_positionsWhere

theorem WellFormed.pairwise_idleAcross (unusedFunctions : Bool) :
    (store.idleAcross unusedFunctions).Pairwise (· < ·) := by
  rw [h.idleAcross_eq_where]
  exact pairwise_positionsWhere

variable {unusedFunctions : Bool} {position : Nat}

theorem WellFormed.mem_idleIn_iff {file : String} :
    position ∈ store.idleIn file unusedFunctions ↔
      ∃ rule, store.rules[position]? = some rule ∧
        (rule.scope store.matching = .oneFile ∧ rule.file = Path.canonical file) ∧
        store.isDue unusedFunctions position rule = true := by
  simp only [h.idleIn_eq_where, mem_positionsWhere, Bool.and_eq_true, beq_iff_eq]

theorem WellFormed.mem_idleAcross_iff :
    position ∈ store.idleAcross unusedFunctions ↔
      ∃ rule, store.rules[position]? = some rule ∧ rule.scope store.matching = .anyFile ∧
        store.isDue unusedFunctions position rule = true := by
  simp only [h.idleAcross_eq_where, mem_positionsWhere, Bool.and_eq_true, beq_iff_eq]

end WellFormed

/-- The rule at a position is told by the query that its scope calls for, and by no other: under the
name that the rule gives if it is about one file, else among the rules across files. A rule that has
covered something or does not count is told by none. -/
structure IsTold (store : RuleStore) (unusedFunctions : Bool) (position : Nat) (rule : Rule) :
    Prop where
  of_oneFile : store.isDue unusedFunctions position rule = true →
    rule.scope store.matching = .oneFile →
    position ∈ store.idleIn rule.file unusedFunctions ∧
      position ∉ store.idleAcross unusedFunctions
  of_anyFile : store.isDue unusedFunctions position rule = true →
    rule.scope store.matching = .anyFile →
    position ∈ store.idleAcross unusedFunctions ∧
      ∀ file, position ∉ store.idleIn file unusedFunctions
  of_not_due : store.isDue unusedFunctions position rule = false →
    position ∉ store.idleAcross unusedFunctions ∧
      ∀ file, position ∉ store.idleIn file unusedFunctions

/-- **When an idle rule is missed.** The answers hold the rules at the idle positions; these are,
across files, the positions of the rules that are due and not about one file, and for a file, of
those that are due and about the file with the canonical form of its name. So every rule is told
where it should be, unless it is due, about one file, and gives the name of that file with a
backslash. -/
theorem Reachable.isTold_iff {store : RuleStore} (h : store.Reachable) (unusedFunctions : Bool)
    {position : Nat} {rule : Rule} (hread : store.rules[position]? = some rule) :
    store.unmatchedAcross unusedFunctions =
        (store.idleAcross unusedFunctions).filterMap store.ruleAt? ∧
      (∀ file, store.unmatchedIn file unusedFunctions =
        (store.idleIn file unusedFunctions).filterMap store.ruleAt?) ∧
      store.ruleAt? position = some { rule with matched := store.isMatched position } ∧
      (position ∈ store.idleAcross unusedFunctions ↔
        rule.scope store.matching = .anyFile ∧
          store.isDue unusedFunctions position rule = true) ∧
      (∀ file, position ∈ store.idleIn file unusedFunctions ↔
        (rule.scope store.matching = .oneFile ∧ rule.file = Path.canonical file) ∧
          store.isDue unusedFunctions position rule = true) ∧
      (store.IsTold unusedFunctions position rule ↔
        ¬ (store.isDue unusedFunctions position rule = true ∧
          rule.scope store.matching = .oneFile ∧ '\\' ∈ rule.file.toList)) := by
  have hacross : position ∈ store.idleAcross unusedFunctions ↔
      rule.scope store.matching = .anyFile ∧
        store.isDue unusedFunctions position rule = true := by
    simp [h.wellFormed.mem_idleAcross_iff, hread]
  have hfile (file : String) : position ∈ store.idleIn file unusedFunctions ↔
      (rule.scope store.matching = .oneFile ∧ rule.file = Path.canonical file) ∧
        store.isDue unusedFunctions position rule = true := by
    simp [h.wellFormed.mem_idleIn_iff, hread]
  refine ⟨rfl, fun _ => rfl, ruleAt?_eq hread, hacross, hfile, ?_⟩
  constructor
  · -- Looked up under its own name, the rule is found only if that name is canonical.
    rintro htold ⟨hdue, hscope, hbackslash⟩
    have hfound := (hfile rule.file).mp (htold.of_oneFile hdue hscope).1
    exact Path.canonical_eq_self_iff.mp hfound.1.2.symm hbackslash
  · intro hnot
    refine ⟨?_, ?_, ?_⟩
    · intro hdue hscope
      have hcanonical : Path.canonical rule.file = rule.file :=
        Path.canonical_eq_self_iff.mpr fun hbackslash => hnot ⟨hdue, hscope, hbackslash⟩
      refine ⟨(hfile rule.file).mpr ⟨⟨hscope, hcanonical.symm⟩, hdue⟩, ?_⟩
      rw [hacross, hscope]
      rintro ⟨hany, -⟩
      cases hany
    · intro hdue hscope
      refine ⟨hacross.mpr ⟨hscope, hdue⟩, ?_⟩
      intro file hmem
      rw [hfile, hscope] at hmem
      cases hmem.1.1
    · intro hnotDue
      constructor
      · rw [hacross, hnotDue]
        rintro ⟨-, hdue⟩
        cases hdue
      · intro file hmem
        rw [hfile, hnotDue] at hmem
        cases hmem.2

/-- A rule from a line of text gives its file in canonical form, so it is told under that name. -/
theorem isTold_rule_of_line :
    let store := (empty .literal).perform (.addText "memleak\nnullPointer:src\\a.c")
    let rule : Rule := { id := "nullPointer", file := "src/a.c" }
    store.Reachable ∧ store.rules[1]? = some rule ∧ store.IsTold false 1 rule := by
  intro store rule
  have hstore : store.Reachable := (Reachable.empty .literal).perform _
  have hread : store.rules[1]? = some rule := by decide +kernel
  have hline : rule = Rule.ofLine "nullPointer:src\\a.c" := by decide +kernel
  refine ⟨hstore, hread, (hstore.isTold_iff false hread).2.2.2.2.2.mpr ?_⟩
  rintro ⟨-, -, hbackslash⟩
  rw [hline] at hbackslash
  exact Rule.not_mem_file_ofLine _ hbackslash

/-- **A rule that is missed.** An XML document gives a rule for a file by a name with a backslash.
The rule has covered nothing, but no query tells it, not even the one for that name. -/
theorem unmatchedIn_eq_nil_of_backslash :
    let document := "<s><suppress><id>nullPointer</id><fileName>src\\a.c</fileName></suppress></s>"
    let store := (empty .literal).perform (.addXml document)
    let rule : Rule := { id := "nullPointer", file := "src\\a.c" }
    store.Reachable ∧ store.rules[0]? = some rule ∧ store.isDue false 0 rule = true ∧
      rule.scope store.matching = .oneFile ∧ store.unmatchedIn rule.file false = [] ∧
      store.unmatchedAcross false = [] ∧ ¬ store.IsTold false 0 rule := by
  intro document store rule
  have hstore : store.Reachable := (Reachable.empty .literal).perform _
  -- The document is read once; everything else is about the rule in it.
  have hxml : Rule.ofXml document = .ok [rule] := by
    have hread : (Rule.ofXml document).toOption = some [rule] := by decide +kernel
    cases h : Rule.ofXml document with
    | error cause => rw [h] at hread; cases hread
    | ok rules => rw [h] at hread; cases hread; rfl
  have hloaded : store = ((empty .literal).addAll [rule]).store := perform_addXml hxml _
  clear_value store
  have hin : store.idleIn rule.file false = [] := by
    rw [hstore.wellFormed.idleIn_eq_where, hloaded]
    decide +kernel
  have hacross : store.idleAcross false = [] := by
    rw [hstore.wellFormed.idleAcross_eq_where, hloaded]
    decide +kernel
  subst hloaded
  refine ⟨hstore, by decide +kernel, by decide +kernel, by decide +kernel, ?_, ?_, ?_⟩
  · rw [unmatchedIn, hin]
    rfl
  · rw [unmatchedAcross, hacross]
    rfl
  · intro htold
    have hmem := (htold.of_oneFile (by decide +kernel) (by decide +kernel)).1
    rw [hin] at hmem
    cases hmem

end FindingFilter.RuleStore
