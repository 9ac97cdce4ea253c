import FindingFilter.Proofs.RuleStore.Credit
import FindingFilter.Proofs.Wildcard.PlainName

/-!
# Rule stores — the first rule of a kind

Who gets the credit for a finding is a question of order: of all rules that could have it, the one
that came first into the store. `IsFirst` says this without any index, and the two ways in which a
store looks for that rule are both instances of one scan, `firstWhere?`:

* over all rules, whatever file they are about (`creditFor?_eq`);
* over the positions that the file index holds under the name of the finding's file
  (`WellFormed.creditInFileFor?_eq`).

The second looks under one name only and so never sees the rules about other files. It misses none:
a rule about one file gives a name and no pattern, and covers nothing outside that file
(`Rule.file_eq_of_covers`). `Reachable.suppressesInFile_iff` draws the conclusion.
-/

namespace FindingFilter

/-- A rule about one file covers findings in that file only, however files are compared: its name is
no pattern, and such a name covers itself only. -/
theorem Rule.file_eq_of_covers {rule : Rule} {matching : FileMatching} {finding : Finding}
    (hscope : rule.scope matching = .oneFile) (hcovers : rule.covers matching finding = true) :
    rule.file = finding.file := by
  have hkind : rule.hasFile = true ∧
      (matching ≠ .literal → Wildcard.hasWildcard rule.file.toList = false) := by
    simpa [scope] using hscope
  obtain ⟨hfile, hplain⟩ := hkind
  have hopen : rule.file.isEmpty = false := by simpa [hasFile] using hfile
  have hcompared : rule.fileCovers matching finding = true := by
    simp only [covers, Bool.and_eq_true] at hcovers
    exact hcovers.1.1.2
  simp only [fileCovers, hopen, Bool.false_or] at hcompared
  cases matching with
  | literal => exact beq_iff_eq.mp hcompared
  | glob =>
    have hname : Wildcard.hasWildcard rule.file.toList = false := hplain (by decide)
    exact (Wildcard.matchesName_iff_of_plain hname).mp hcompared

namespace RuleStore

/-- The rule at the position has the property, and no rule before it has. -/
def IsFirst (store : RuleStore) (p : Rule → Bool) (position : Nat) : Prop :=
  (∃ rule, store.rules[position]? = some rule ∧ p rule = true) ∧
    ∀ earlier < position, ∀ rule, store.rules[earlier]? = some rule → p rule = false

/-- The position of the first rule with a property. -/
def firstWhere? (store : RuleStore) (p : Rule → Bool) : Option Nat :=
  (List.range store.size).find? fun position => store.rules[position]?.any p

section FirstWhere

variable {store : RuleStore} {p q : Rule → Bool}

theorem firstWhere?_eq_some_iff {position : Nat} :
    store.firstWhere? p = some position ↔ store.IsFirst p position := by
  have hhas : store.rules[position]?.any p = true ↔
      ∃ rule, store.rules[position]? = some rule ∧ p rule = true := Option.any_eq_true _ _
  have hlacks (earlier : Nat) : store.rules[earlier]?.any p = false ↔
      ∀ rule, store.rules[earlier]? = some rule → p rule = false := Option.any_eq_false _ _
  rw [firstWhere?, List.find?_range_eq_some, List.mem_range]
  simp only [Bool.not_eq_true', hhas, hlacks]
  constructor
  · rintro ⟨hhere, -, hbefore⟩
    exact ⟨hhere, hbefore⟩
  · rintro ⟨⟨rule, hread, hp⟩, hbefore⟩
    exact ⟨⟨rule, hread, hp⟩, (Array.getElem?_eq_some_iff.mp hread).1, hbefore⟩

theorem isSome_firstWhere?_iff :
    (store.firstWhere? p).isSome = true ↔ ∃ rule ∈ store.rules, p rule = true := by
  rw [firstWhere?, List.find?_isSome]
  constructor
  · rintro ⟨position, -, hany⟩
    obtain ⟨rule, hread, hp⟩ := (Option.any_eq_true _ _).mp hany
    exact ⟨rule, Array.mem_of_getElem? hread, hp⟩
  · rintro ⟨rule, hmem, hp⟩
    obtain ⟨position, hlt, rfl⟩ := Array.mem_iff_getElem.mp hmem
    have hread : store.rules[position]? = some store.rules[position] :=
      Array.getElem?_eq_getElem hlt
    refine ⟨position, List.mem_range.mpr hlt, ?_⟩
    rw [hread]
    exact hp

/-- Of two kinds of rules, one within the other, the wider one comes no later. -/
theorem exists_le_of_firstWhere? (hsub : ∀ rule, p rule = true → q rule = true) {position : Nat}
    (hfirst : store.firstWhere? p = some position) :
    ∃ overall ≤ position, store.firstWhere? q = some overall := by
  obtain ⟨⟨rule, hread, hp⟩, -⟩ := firstWhere?_eq_some_iff.mp hfirst
  have hsome : (store.firstWhere? q).isSome = true :=
    isSome_firstWhere?_iff.mpr ⟨rule, Array.mem_of_getElem? hread, hsub rule hp⟩
  obtain ⟨overall, hoverall⟩ := Option.isSome_iff_exists.mp hsome
  refine ⟨overall, ?_, hoverall⟩
  -- Were it later, the rule here would be one of its kind before it.
  apply Nat.le_of_not_lt
  intro hlater
  have hnot := (firstWhere?_eq_some_iff.mp hoverall).2 position hlater rule hread
  rw [hsub rule hp] at hnot
  cases hnot

/-- Stores of the same rules have the same first rule of a kind that they agree on. -/
theorem firstWhere?_congr {other : RuleStore} (hrules : other.rules = store.rules)
    (h : ∀ rule ∈ store.rules, q rule = p rule) : other.firstWhere? q = store.firstWhere? p := by
  have hany (position : Nat) : other.rules[position]?.any q = store.rules[position]?.any p := by
    rw [hrules]
    cases hread : store.rules[position]? with
    | none => rfl
    | some rule => exact h rule (Array.mem_of_getElem? hread)
  have hsize : other.size = store.size := congrArg Array.size hrules
  simp only [firstWhere?, hany, hsize]

end FirstWhere

/-! ## The two searches -/

theorem creditFor?_eq (store : RuleStore) (finding : Finding) :
    store.creditFor? finding =
      store.firstWhere? fun rule => rule.covers store.matching finding := by
  have hcovers : store.coversAt finding = fun position =>
      store.rules[position]?.any fun rule => rule.covers store.matching finding := by
    funext position
    unfold coversAt
    cases store.rules[position]? <;> rfl
  rw [creditFor?, firstWhere?, hcovers]

/-- What is found by way of the file index is what a scan for rules about that file finds. -/
theorem WellFormed.creditInFileFor?_eq {store : RuleStore} (h : store.WellFormed)
    (finding : Finding) :
    store.creditInFileFor? finding =
      store.firstWhere? fun rule => rule.scope store.matching == .oneFile &&
        rule.file == finding.file && rule.covers store.matching finding := by
  rw [creditInFileFor?, h.positionsIn_eq, List.find?_filter, firstWhere?]
  congr 1
  funext position
  unfold isAbout coversAt
  cases store.rules[position]? with
  | none => rfl
  | some rule => simp only [Bool.decide_and, Bool.decide_eq_true, Option.any_some]

/-- Nor does it matter that the scan asks for the name of the file. -/
theorem WellFormed.creditInFileFor?_eq_scan {store : RuleStore} (h : store.WellFormed)
    (finding : Finding) :
    store.creditInFileFor? finding =
      store.firstWhere? fun rule => rule.scope store.matching == .oneFile &&
        rule.covers store.matching finding := by
  rw [h.creditInFileFor?_eq]
  congr 1
  funext rule
  rw [Bool.eq_iff_iff]
  simp only [Bool.and_eq_true, beq_iff_eq]
  constructor
  · rintro ⟨⟨hscope, -⟩, hcovers⟩
    exact ⟨hscope, hcovers⟩
  · rintro ⟨hscope, hcovers⟩
    exact ⟨⟨hscope, Rule.file_eq_of_covers hscope hcovers⟩, hcovers⟩

theorem WellFormed.lt_size_flags_of_isFirst {store : RuleStore} (h : store.WellFormed)
    {p : Rule → Bool} {position : Nat} (hfirst : store.IsFirst p position) :
    position < store.flags.size := by
  obtain ⟨⟨rule, hread, -⟩, -⟩ := hfirst
  rw [h.size_flags]
  exact (Array.getElem?_eq_some_iff.mp hread).1

/-- The first rule of a kind is marked, if there is one, and no other flag changes. -/
theorem WellFormed.isMatched_markCredit_iff {store : RuleStore} (h : store.WellFormed)
    {p : Rule → Bool} {position : Nat} :
    (store.markCredit (store.firstWhere? p)).isMatched position = true ↔
      store.isMatched position = true ∨ store.IsFirst p position := by
  rw [isMatched_markCredit, Bool.or_eq_true, Bool.and_eq_true, beq_iff_eq, decide_eq_true_eq,
    firstWhere?_eq_some_iff, and_iff_left_of_imp h.lt_size_flags_of_isFirst]

/-- **The file index misses no rule.** To ask only the rules that are entered under the name of the
finding's file comes to the same as to ask all rules about one file, in the order of the store: the
answer is whether one of them covers the finding, and the first that does is marked and nothing
else. So the answer is never better than that of all rules together, whose credit goes to the same
rule or to an earlier one. -/
theorem Reachable.suppressesInFile_iff {store : RuleStore} (h : store.Reachable)
    (finding : Finding) :
    ((store.suppressesInFile finding).1 = true ↔
        ∃ rule ∈ store.rules, rule.scope store.matching = .oneFile ∧
          rule.covers store.matching finding = true) ∧
      (∃ flags, flags.size = store.flags.size ∧
        (store.suppressesInFile finding).2 = { store with flags }) ∧
      (∀ position, (store.suppressesInFile finding).2.isMatched position = true ↔
        store.isMatched position = true ∨
          store.IsFirst (fun rule => rule.scope store.matching == .oneFile &&
            rule.covers store.matching finding) position) ∧
      ((store.suppressesInFile finding).1 = true → (store.suppresses finding).1 = true) ∧
      ∀ inFile, store.creditInFileFor? finding = some inFile →
        ∃ overall ≤ inFile, store.creditFor? finding = some overall := by
  have hscan := h.wellFormed.creditInFileFor?_eq_scan finding
  have hearlier : ∀ inFile, store.creditInFileFor? finding = some inFile →
      ∃ overall ≤ inFile, store.creditFor? finding = some overall := by
    intro inFile hcredit
    rw [hscan] at hcredit
    rw [creditFor?_eq]
    apply exists_le_of_firstWhere? _ hcredit
    intro rule hrule
    exact (Bool.and_eq_true_iff.mp hrule).2
  refine ⟨?_, ?_, ?_, ?_, hearlier⟩
  · show (store.creditInFileFor? finding).isSome = true ↔ _
    rw [hscan, isSome_firstWhere?_iff]
    simp only [Bool.and_eq_true, beq_iff_eq]
  · exact markCredit_eq store (store.creditInFileFor? finding)
  · intro position
    show (store.markCredit (store.creditInFileFor? finding)).isMatched position = true ↔ _
    rw [hscan]
    exact h.wellFormed.isMatched_markCredit_iff
  · intro hsome
    obtain ⟨inFile, hcredit⟩ := Option.isSome_iff_exists.mp hsome
    obtain ⟨overall, -, hoverall⟩ := hearlier inFile hcredit
    exact Option.isSome_iff_exists.mpr ⟨overall, hoverall⟩

/-- A pattern that comes first gets the credit among all rules; of the rules about the file itself
the first is about another line. -/
theorem suppressesInFile_behind_pattern :
    let store := (empty .glob).perform
      (.addText "leak:src/*.c\nleak:src/a.c:7\n*:src/a.c\nleak:src/a.c")
    let finding : Finding := { id := "leak", file := "src/a.c", line := 3 }
    store.Reachable ∧ (store.suppressesInFile finding).1 = true ∧
      (store.suppresses finding).1 = true ∧ store.creditInFileFor? finding = some 2 ∧
      (∃ overall ≤ 2, store.creditFor? finding = some overall) ∧
      (store.suppressesInFile finding).2.isMatched 2 = true := by
  intro store finding
  have hstore : store.Reachable := (Reachable.empty .glob).perform _
  have hcredit : store.creditInFileFor? finding = some 2 := by
    rw [hstore.wellFormed.creditInFileFor?_eq_scan]
    decide +kernel
  obtain ⟨hanswer, -, hmatched, hoverall, hearlier⟩ := hstore.suppressesInFile_iff finding
  have hsome : (store.suppressesInFile finding).1 = true := by
    apply hanswer.mpr
    exact ⟨{ id := "*", file := "src/a.c" }, by decide +kernel, by decide +kernel, by decide +kernel⟩
  have hfirst := firstWhere?_eq_some_iff.mp
    ((hstore.wellFormed.creditInFileFor?_eq_scan finding).symm.trans hcredit)
  exact ⟨hstore, hsome, hoverall hsome, hcredit, hearlier 2 hcredit, (hmatched 2).mpr (.inr hfirst)⟩

end RuleStore

end FindingFilter
