import FindingFilter.Proofs.RuleStore.Acceptance
import FindingFilter.Proofs.RuleStore.History
import FindingFilter.Proofs.RuleStore.Idle

/-!
# Rule stores — file names or file patterns

A store takes the files of its rules for names or for patterns, and that is settled when it is made.
This module takes two stores through the same history, one of each kind, and compares them:

* **`Rule.covers_glob_of_literal`** — as a pattern, a name covers itself, so each rule covers what it
  covered before and perhaps more;
* **`Rule.covers_glob_eq`**, **`Rule.scope_glob_eq`** — a rule whose file holds no wildcard covers the
  same findings and has the same scope either way.

The history may hold every operation, those that fail and those that mark rules included. What the
two stores keep in common is a relation, `IsSwitched`, and `IsSimulation` packages the induction on
the history: it is enough that a rule that enters, a query, and a merge keep the relation if they
happen in both stores.
-/

namespace FindingFilter

/-! ## One rule, taken both ways -/

namespace Rule

/-- The rule names no pattern, so it is about one file if it is about a file at all. -/
def IsPlain (rule : Rule) : Prop :=
  Wildcard.hasWildcard rule.file.toList = false

instance (rule : Rule) : Decidable rule.IsPlain :=
  inferInstanceAs (Decidable (_ = _))

theorem fileCovers_glob_of_literal {rule : Rule} {finding : Finding}
    (h : rule.fileCovers .literal finding = true) : rule.fileCovers .glob finding = true := by
  simp only [fileCovers, Bool.or_eq_true, beq_iff_eq] at h ⊢
  rcases h with hopen | hsame
  · exact Or.inl hopen
  · -- The file of the finding is the pattern itself.
    rw [hsame]
    exact Or.inr (Wildcard.matchesName_self finding.file)

/-- **A rule covers no less as a pattern.** -/
theorem covers_glob_of_literal {rule : Rule} {finding : Finding}
    (h : rule.covers .literal finding = true) : rule.covers .glob finding = true := by
  simp only [covers, Bool.and_eq_true] at h ⊢
  obtain ⟨⟨⟨hid, hfile⟩, hline⟩, hsymbol⟩ := h
  exact ⟨⟨⟨hid, fileCovers_glob_of_literal hfile⟩, hline⟩, hsymbol⟩

theorem covers_glob_eq {rule : Rule} (hplain : rule.IsPlain) (finding : Finding) :
    rule.covers .glob finding = rule.covers .literal finding := by
  have hname : Wildcard.matchesName rule.file finding.file = (rule.file == finding.file) := by
    rw [Bool.eq_iff_iff, Wildcard.matchesName_iff_of_plain hplain, beq_iff_eq]
  have hfile : rule.fileCovers .glob finding = rule.fileCovers .literal finding := by
    simp only [fileCovers, hname]
  rw [covers, covers, hfile]

theorem scope_glob_eq {rule : Rule} (hplain : rule.IsPlain) :
    rule.scope .glob = rule.scope .literal := by
  have hname : Wildcard.hasWildcard rule.file.toList = false := hplain
  simp [scope, hname]

end Rule

namespace RuleStore

/-! ## Two stores side by side -/

/-- The store after operations in order, whether they succeed or fail. -/
def performAll (store : RuleStore) (operations : List Operation) : RuleStore :=
  operations.foldl perform store

/-- A relation between two stores that is kept by whatever happens to both of them. -/
structure IsSimulation (R : RuleStore → RuleStore → Prop) : Prop where
  entered : ∀ {store other : RuleStore} {rule : Rule}, rule.check = .ok () → R store other →
    R (store.entered rule) (other.entered rule)
  ask : ∀ {store other : RuleStore} (query : Query), R store other →
    R (store.ask query).2 (other.ask query).2
  mergeFlags : ∀ {store other : RuleStore} (source : RuleStore), R store other →
    R (store.mergeFlags source) (other.mergeFlags source)

section IsSimulation

variable {R : RuleStore → RuleStore → Prop} {store other : RuleStore}

theorem IsSimulation.orElse_add (hR : IsSimulation R) (h : R store other) (rule : Rule) :
    R (store.orElse (store.add rule)) (other.orElse (other.add rule)) := by
  -- Whether the rule is accepted is up to the rule, so both stores take it or both refuse it.
  cases hcheck : rule.check with
  | error cause =>
    rw [add_of_refused hcheck, add_of_refused hcheck]
    exact h
  | ok =>
    have hstore : store.add rule = .ok (store.entered rule) := add_eq_ok_iff.mpr ⟨hcheck, rfl⟩
    have hother : other.add rule = .ok (other.entered rule) := add_eq_ok_iff.mpr ⟨hcheck, rfl⟩
    rw [hstore, hother]
    exact hR.entered hcheck h

theorem IsSimulation.enterAll (hR : IsSimulation R) (h : R store other) {rules : List Rule}
    (haccepted : ∀ rule ∈ rules, rule.check = .ok ()) :
    R (store.enterAll rules) (other.enterAll rules) := by
  induction rules generalizing store other with
  | nil => exact h
  | cons rule rules ih =>
    obtain ⟨hrule, hrules⟩ := List.forall_mem_cons.mp haccepted
    rw [enterAll_cons, enterAll_cons]
    exact ih (hR.entered hrule h) hrules

theorem IsSimulation.load (hR : IsSimulation R) (h : R store other) (input : Input) :
    R (store.load input).store (other.load input).store := by
  rcases input.fails_or_holds with ⟨cause, hfails⟩ | ⟨rules, hholds⟩
  · rw [load_of_fails hfails, load_of_fails hfails]
    exact h
  · -- Both stores stop at the same rule, if they stop at all.
    obtain ⟨accepted, rest, failure, rfl, haccepted, hstop⟩ := exists_stopsAt rules
    rw [load_of_holds hholds, load_of_holds hholds, addAll_append haccepted,
      addAll_append haccepted, addAll_of_stopsAt hstop, addAll_of_stopsAt hstop]
    exact hR.enterAll h haccepted

/-- **One operation keeps the relation.** -/
theorem IsSimulation.perform (hR : IsSimulation R) (h : R store other) (operation : Operation) :
    R (store.perform operation) (other.perform operation) := by
  cases operation with
  | add rule => exact hR.orElse_add h rule
  | addLine line => exact hR.orElse_add h (Rule.ofLine line)
  | addText content => exact hR.load h (.text content)
  | addBytes content => exact hR.load h (.stream (.ok content))
  | addXml document => exact hR.load h (.document document)
  | addXmlFile tree path => exact hR.load h (.documentFile tree path)
  | suppresses finding => exact hR.ask (.overall finding) h
  | suppressesInFile finding => exact hR.ask (.inFile finding) h
  | mergeFlags source => exact hR.mergeFlags source h

/-- **A history keeps the relation.** -/
theorem IsSimulation.performAll (hR : IsSimulation R) (h : R store other)
    (operations : List Operation) :
    R (store.performAll operations) (other.performAll operations) := by
  induction operations generalizing store other with
  | nil => exact h
  | cons operation operations ih => exact ih (hR.perform h operation)

end IsSimulation

/-! ## The other way to take the files -/

/-- No rule of the store names a pattern. -/
def IsPlain (store : RuleStore) : Prop :=
  ∀ rule ∈ store.rules, rule.IsPlain

instance (store : RuleStore) : Decidable store.IsPlain :=
  inferInstanceAs (Decidable (∀ rule ∈ store.rules, rule.IsPlain))

/-- The second store has the rules of the first and takes their files for patterns. The same rules
are marked in both, as long as no file is a pattern. -/
structure IsSwitched (literal glob : RuleStore) : Prop where
  matching_literal : literal.matching = .literal
  matching_glob : glob.matching = .glob
  rules : glob.rules = literal.rules
  wellFormed_literal : literal.WellFormed
  wellFormed_glob : glob.WellFormed
  flags : literal.IsPlain → glob.flags = literal.flags

theorem rules_ask (store : RuleStore) (query : Query) : (store.ask query).2.rules = store.rules := by
  obtain ⟨flags, -, hstep⟩ := markCredit_eq store (store.creditOf? query)
  rw [ask_eq, hstep]

theorem matching_ask (store : RuleStore) (query : Query) :
    (store.ask query).2.matching = store.matching := by
  obtain ⟨flags, -, hstep⟩ := markCredit_eq store (store.creditOf? query)
  rw [ask_eq, hstep]

theorem WellFormed.ask {store : RuleStore} (h : store.WellFormed) (query : Query) :
    (store.ask query).2.WellFormed := by
  rw [ask_eq]
  exact isClosed_wellFormed.markCredit h (store.creditOf? query)

theorem flags_markCredit_congr {store other : RuleStore} (hflags : other.flags = store.flags)
    (credit : Option Nat) : (other.markCredit credit).flags = (store.markCredit credit).flags := by
  cases credit with
  | none => exact hflags
  | some position =>
    show other.flags.setIfInBounds position true = store.flags.setIfInBounds position true
    rw [hflags]

section IsSwitched

variable {literal glob : RuleStore} (h : literal.IsSwitched glob)

include h

/-- Without patterns every rule answers a query in both stores or in none, so the first that does is
the same. -/
theorem IsSwitched.creditOf?_eq (hplain : literal.IsPlain) (query : Query) :
    glob.creditOf? query = literal.creditOf? query := by
  rw [h.wellFormed_glob.creditOf?_eq, h.wellFormed_literal.creditOf?_eq]
  apply firstWhere?_congr h.rules
  intro rule hmem
  rw [h.matching_glob, h.matching_literal]
  cases query with
  | overall finding => exact Rule.covers_glob_eq (hplain rule hmem) finding
  | inFile finding =>
    simp only [Query.isAnsweredBy, Rule.covers_glob_eq (hplain rule hmem),
      Rule.scope_glob_eq (hplain rule hmem)]

theorem IsSwitched.flags_ask_eq (hplain : literal.IsPlain) (query : Query) :
    (glob.ask query).2.flags = (literal.ask query).2.flags := by
  rw [ask_eq, ask_eq, h.creditOf?_eq hplain]
  exact flags_markCredit_congr (h.flags hplain) _

theorem IsSwitched.suppresses_glob_of_literal {finding : Finding}
    (hcovered : (literal.suppresses finding).1 = true) : (glob.suppresses finding).1 = true := by
  have hliteral : (literal.creditFor? finding).isSome = true := hcovered
  rw [creditFor?_eq, isSome_firstWhere?_iff, h.matching_literal] at hliteral
  obtain ⟨rule, hmem, hcovers⟩ := hliteral
  show (glob.creditFor? finding).isSome = true
  rw [creditFor?_eq, isSome_firstWhere?_iff, h.matching_glob, h.rules]
  exact ⟨rule, hmem, Rule.covers_glob_of_literal hcovers⟩

end IsSwitched

theorem isSimulation_isSwitched : IsSimulation IsSwitched where
  entered := by
    intro literal glob rule hcheck h
    have hrules : (glob.entered rule).rules = (literal.entered rule).rules := by
      show glob.rules.push rule = literal.rules.push rule
      rw [h.rules]
    refine ⟨h.matching_literal, h.matching_glob, hrules, h.wellFormed_literal.entered hcheck,
      h.wellFormed_glob.entered hcheck, ?_⟩
    intro hplain
    -- The rules that were there before are plain as well, so the flags were the same till now.
    have hbefore : literal.IsPlain := fun rule hmem =>
      hplain rule (Array.mem_push_of_mem _ hmem)
    show glob.flags.push rule.matched = literal.flags.push rule.matched
    rw [h.flags hbefore]
  ask := by
    intro literal glob query h
    have hrules : (glob.ask query).2.rules = (literal.ask query).2.rules := by
      rw [rules_ask, rules_ask, h.rules]
    refine ⟨?_, ?_, hrules, h.wellFormed_literal.ask query, h.wellFormed_glob.ask query, ?_⟩
    · rw [matching_ask, h.matching_literal]
    · rw [matching_ask, h.matching_glob]
    · intro hplain
      rw [IsPlain, rules_ask] at hplain
      exact h.flags_ask_eq hplain query
  mergeFlags := by
    intro literal glob source h
    refine ⟨h.matching_literal, h.matching_glob, h.rules,
      isClosed_wellFormed.mergeFlags source h.wellFormed_literal,
      isClosed_wellFormed.mergeFlags source h.wellFormed_glob, ?_⟩
    intro hplain
    have hbefore : glob.flags = literal.flags := h.flags hplain
    rw [mergeFlags, mergeFlags, hbefore]

theorem isSwitched_empty : (empty .literal).IsSwitched (empty .glob) where
  matching_literal := rfl
  matching_glob := rfl
  rules := rfl
  wellFormed_literal := wellFormed_empty .literal
  wellFormed_glob := wellFormed_empty .glob
  flags := fun _ => rfl

/-! ## What cannot be told apart -/

/-- Nothing that can be asked of two stores tells them apart. -/
structure AgreesWith (store other : RuleStore) : Prop where
  rules : other.rules = store.rules
  flags : other.flags = store.flags
  /-- Every query gets the same answer, and the same rule gets the credit. -/
  answer : ∀ query, (other.ask query).1 = (store.ask query).1
  credit : ∀ query, other.creditOf? query = store.creditOf? query
  flags_ask : ∀ query, (other.ask query).2.flags = (store.ask query).2.flags
  scope : ∀ rule ∈ store.rules, rule.scope other.matching = rule.scope store.matching
  unmatchedIn : ∀ file unusedFunctions,
    other.unmatchedIn file unusedFunctions = store.unmatchedIn file unusedFunctions
  unmatchedAcross : ∀ unusedFunctions,
    other.unmatchedAcross unusedFunctions = store.unmatchedAcross unusedFunctions

theorem ruleAt?_congr {store other : RuleStore} (hrules : other.rules = store.rules)
    (hflags : other.flags = store.flags) : other.ruleAt? = store.ruleAt? := by
  funext position
  rw [ruleAt?, ruleAt?, isMatched, isMatched, hrules, hflags]

theorem isDue_congr {store other : RuleStore} (hflags : other.flags = store.flags) :
    other.isDue = store.isDue := by
  funext unusedFunctions position rule
  rw [isDue, isDue, isMatched, isMatched, hflags]

section IsSwitched

variable {literal glob : RuleStore} (h : literal.IsSwitched glob) (hplain : literal.IsPlain)

include h hplain

theorem IsSwitched.scope_eq {rule : Rule} (hmem : rule ∈ literal.rules) :
    rule.scope glob.matching = rule.scope literal.matching := by
  rw [h.matching_glob, h.matching_literal, Rule.scope_glob_eq (hplain rule hmem)]

theorem IsSwitched.idleIn_eq (file : String) (unusedFunctions : Bool) :
    glob.idleIn file unusedFunctions = literal.idleIn file unusedFunctions := by
  rw [h.wellFormed_glob.idleIn_eq_where, h.wellFormed_literal.idleIn_eq_where]
  apply positionsWhere_congr h.rules
  intro position rule hread
  rw [h.scope_eq hplain (Array.mem_of_getElem? hread), isDue_congr (h.flags hplain)]

theorem IsSwitched.idleAcross_eq (unusedFunctions : Bool) :
    glob.idleAcross unusedFunctions = literal.idleAcross unusedFunctions := by
  rw [h.wellFormed_glob.idleAcross_eq_where, h.wellFormed_literal.idleAcross_eq_where]
  apply positionsWhere_congr h.rules
  intro position rule hread
  rw [h.scope_eq hplain (Array.mem_of_getElem? hread), isDue_congr (h.flags hplain)]

theorem IsSwitched.agreesWith : literal.AgreesWith glob where
  rules := h.rules
  flags := h.flags hplain
  answer := by
    intro query
    rw [ask_eq, ask_eq, h.creditOf?_eq hplain]
  credit := h.creditOf?_eq hplain
  flags_ask := h.flags_ask_eq hplain
  scope := fun _ hmem => h.scope_eq hplain hmem
  unmatchedIn := by
    intro file unusedFunctions
    rw [unmatchedIn, unmatchedIn, h.idleIn_eq hplain, ruleAt?_congr h.rules (h.flags hplain)]
  unmatchedAcross := by
    intro unusedFunctions
    rw [unmatchedAcross, unmatchedAcross, h.idleAcross_eq hplain,
      ruleAt?_congr h.rules (h.flags hplain)]

end IsSwitched

/-- **Taking files for patterns suppresses no less.** Let the same rules be loaded into two empty
stores, in whatever way and with whatever queries in between, one that takes files for names and one
that takes them for patterns. Both hold the same rules, and what the first suppresses the second
suppresses too, as every name covers itself. If no file is a pattern, nothing tells the two stores
apart: neither an answer, nor the rule that gets the credit, nor a scope, nor an idle rule. -/
theorem performAll_switched (operations : List Operation) :
    let literal := (empty .literal).performAll operations
    let glob := (empty .glob).performAll operations
    literal.matching = .literal ∧ glob.matching = .glob ∧ glob.rules = literal.rules ∧
      (∀ name, Wildcard.matchesName name name = true) ∧
      (∀ finding, (literal.suppresses finding).1 = true → (glob.suppresses finding).1 = true) ∧
      (literal.IsPlain → literal.AgreesWith glob) := by
  intro literal glob
  have h : literal.IsSwitched glob :=
    isSimulation_isSwitched.performAll isSwitched_empty operations
  exact ⟨h.matching_literal, h.matching_glob, h.rules, Wildcard.matchesName_self,
    fun _ hcovered => h.suppresses_glob_of_literal hcovered, h.agreesWith⟩

/-- A file with a star in its name is suppressed under both readings; a history without patterns, in
which a rule is refused and another is marked, leaves stores that agree. -/
theorem performAll_switched_star_and_plain :
    let starred : List Operation := [.addText "null:a*.c:3"]
    let plain : List Operation :=
      [.addText "null:a.c\nleak:a.c", .addLine "1bad", .suppresses { id := "leak", file := "a.c" }]
    let null : Finding := { id := "null", file := "a*.c", line := 3 }
    (((empty .literal).performAll starred).suppresses null).1 = true ∧
      (((empty .glob).performAll starred).suppresses null).1 = true ∧
      ((empty .literal).performAll plain).IsPlain ∧
      ((empty .literal).performAll plain).flags = #[false, true] ∧
      ((empty .literal).performAll plain).AgreesWith ((empty .glob).performAll plain) := by
  intro starred plain null
  have hnull : (((empty .literal).performAll starred).suppresses null).1 = true := by decide +kernel
  have hplain : ((empty .literal).performAll plain).IsPlain := by decide +kernel
  have hflags : ((empty .literal).performAll plain).flags = #[false, true] := by decide +kernel
  obtain ⟨-, -, -, -, hkept, -⟩ := performAll_switched starred
  obtain ⟨-, -, -, -, -, hagree⟩ := performAll_switched plain
  exact ⟨hnull, hkept null hnull, hplain, hflags, hagree hplain⟩

end RuleStore

end FindingFilter
