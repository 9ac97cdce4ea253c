import FindingFilter.Proofs.RuleStore.FirstRule
import FindingFilter.Proofs.RuleStore.Sharding

/-!
# Rule stores — what a history of queries leaves

A store is asked about one finding after another, now among all rules, now among the rules about the
finding's file. Each query marks at most one rule, the first that answers it
(`WellFormed.creditOf?_eq`), and neither the answer nor the choice of that rule depends on what was
marked before. So the flags after a history tell which rules were first in some query of it, and no
more: a rule that is not marked can still cover findings, as long as an earlier rule covers each of
them too. `Reachable.isMatched_askAll_iff_first` says so for every store that operations lead to.
-/

namespace FindingFilter.RuleStore

/-- Whether a rule answers a query with yes: it is asked, and it covers the finding. -/
def Query.isAnsweredBy (matching : FileMatching) : Query → Rule → Bool
  | .overall finding, rule => rule.covers matching finding
  | .inFile finding, rule =>
    rule.scope matching == .oneFile && rule.file == finding.file && rule.covers matching finding

section History

variable {store : RuleStore}

/-- The first rule that answers a query gets the credit. -/
theorem WellFormed.creditOf?_eq (h : store.WellFormed) (query : Query) :
    store.creditOf? query = store.firstWhere? (query.isAnsweredBy store.matching) := by
  cases query with
  | overall finding => exact creditFor?_eq store finding
  | inFile finding => exact h.creditInFileFor?_eq finding

theorem WellFormed.answers_askAll (h : store.WellFormed) (queries : List Query) :
    (store.askAll queries).1 =
      queries.map fun query => store.rules.any (query.isAnsweredBy store.matching) := by
  rw [askAll_eq]
  apply List.map_congr_left
  intro query _
  rw [h.creditOf?_eq, Bool.eq_iff_iff, isSome_firstWhere?_iff, Array.any_eq_true']

/-- A flag is set after a history if it was set before, or its rule was the first to answer some
query. -/
theorem WellFormed.isMatched_askAll_iff (h : store.WellFormed) {queries : List Query}
    {position : Nat} :
    (store.askAll queries).2.isMatched position = true ↔
      store.isMatched position = true ∨
        ∃ query ∈ queries, store.IsFirst (query.isAnsweredBy store.matching) position := by
  rw [RuleStore.isMatched_askAll_iff]
  simp only [h.creditOf?_eq, firstWhere?_eq_some_iff]
  constructor
  · rintro (hset | ⟨-, hquery⟩)
    · exact .inl hset
    · exact .inr hquery
  · rintro (hset | ⟨query, hmem, hfirst⟩)
    · exact .inl hset
    · exact .inr ⟨h.lt_size_flags_of_isFirst hfirst, query, hmem, hfirst⟩

/-- A rule that covers a finding and is not the first to do so has an earlier one before it. -/
theorem exists_earlier_of_not_isFirst {p : Rule → Bool} {position : Nat} {rule : Rule}
    (hread : store.rules[position]? = some rule) (hp : p rule = true)
    (hnot : ¬ store.IsFirst p position) :
    ∃ earlier < position, ∃ other, store.rules[earlier]? = some other ∧ p other = true := by
  apply Classical.byContradiction
  intro hnone
  apply hnot
  refine ⟨⟨rule, hread, hp⟩, ?_⟩
  intro earlier hlt other hother
  rw [← Bool.not_eq_true]
  exact fun hcovers => hnone ⟨earlier, hlt, other, hother, hcovers⟩

end History

/-- **What a history of queries leaves.** Every answer is whether there is a rule that answers the
query. Only flags change: those are set afterwards that were set before, and those of the rules that
were the first to cover a finding asked about among all rules, or among the rules about the file of
the finding. So if a rule is not marked afterwards, then for every finding that was asked about among
all rules and that it covers, an earlier rule covers it as well. -/
theorem Reachable.isMatched_askAll_iff_first {store : RuleStore} (h : store.Reachable)
    (queries : List Query) :
    (store.askAll queries).1 =
        (queries.map fun query => store.rules.any (query.isAnsweredBy store.matching)) ∧
      (∃ flags, flags.size = store.flags.size ∧ (store.askAll queries).2 = { store with flags }) ∧
      (∀ position, (store.askAll queries).2.isMatched position = true ↔
        store.isMatched position = true ∨
          (∃ finding, .overall finding ∈ queries ∧
            store.IsFirst (fun rule => rule.covers store.matching finding) position) ∨
          ∃ finding, .inFile finding ∈ queries ∧
            store.IsFirst (fun rule => rule.scope store.matching == .oneFile &&
              rule.file == finding.file && rule.covers store.matching finding) position) ∧
      ∀ position rule, store.rules[position]? = some rule →
        (store.askAll queries).2.isMatched position = false →
        ∀ finding, .overall finding ∈ queries → rule.covers store.matching finding = true →
          ∃ earlier < position, ∃ other, store.rules[earlier]? = some other ∧
            other.covers store.matching finding = true := by
  refine ⟨h.wellFormed.answers_askAll queries, ?_, ?_, ?_⟩
  · rw [askAll_eq]
    exact markCredits_eq store _
  · intro position
    rw [h.wellFormed.isMatched_askAll_iff]
    constructor
    · rintro (hset | ⟨query, hmem, hfirst⟩)
      · exact .inl hset
      · cases query with
        | overall finding => exact .inr (.inl ⟨finding, hmem, hfirst⟩)
        | inFile finding => exact .inr (.inr ⟨finding, hmem, hfirst⟩)
    · rintro (hset | ⟨finding, hmem, hfirst⟩ | ⟨finding, hmem, hfirst⟩)
      · exact .inl hset
      · exact .inr ⟨.overall finding, hmem, hfirst⟩
      · exact .inr ⟨.inFile finding, hmem, hfirst⟩
  · intro position rule hread hunset finding hmem hcovers
    refine exists_earlier_of_not_isFirst (p := fun rule => rule.covers store.matching finding)
      hread hcovers ?_
    intro hfirst
    have hset : (store.askAll queries).2.isMatched position = true :=
      h.wellFormed.isMatched_askAll_iff.mpr (.inr ⟨.overall finding, hmem, hfirst⟩)
    rw [hunset] at hset
    cases hset

/-- Three queries to a store with one flag set: the second rule stays without a mark, as the first
one covers the same finding. -/
theorem isMatched_askAll_three_queries :
    let store := ((empty .glob).perform (.addText "null\nnull:a.c\nleak:a.c\nleak")).perform
      (.suppresses { id := "leak", file := "b.c" })
    let null : Finding := { id := "null", file := "a.c", line := 3 }
    let leak : Finding := { id := "leak", file := "a.c" }
    let queries : List Query := [.overall null, .inFile leak, .overall { id := "dead", file := "a.c" }]
    store.Reachable ∧ (store.askAll queries).1 = [true, true, false] ∧
      (store.askAll queries).2.isMatched 2 = true ∧
      (store.askAll queries).2.isMatched 1 = false ∧
      ∃ earlier < 1, ∃ other, store.rules[earlier]? = some other ∧
        other.covers store.matching null = true := by
  intro store null leak queries
  have hstore : store.Reachable := ((Reachable.empty .glob).perform _).perform _
  obtain ⟨hanswers, -, hmatched, hshadowed⟩ := hstore.isMatched_askAll_iff_first queries
  have hfirst : store.IsFirst (fun rule => rule.scope store.matching == .oneFile &&
      rule.file == leak.file && rule.covers store.matching leak) 2 :=
    firstWhere?_eq_some_iff.mp (by decide +kernel)
  have hset := (hmatched 2).mpr (.inr (.inr ⟨leak, by decide, hfirst⟩))
  have hunset : (store.askAll queries).2.isMatched 1 = false := by
    have hcredit : store.creditOf? =
        fun query => store.firstWhere? (query.isAnsweredBy store.matching) := by
      funext query
      exact hstore.wellFormed.creditOf?_eq query
    rw [askAll_eq, hcredit]
    decide +kernel
  refine ⟨hstore, ?_, hset, hunset, ?_⟩
  · rw [hanswers]
    decide +kernel
  · exact hshadowed 1 { id := "null", file := "a.c" } (by decide +kernel) hunset null (by decide)
      (by decide +kernel)

end FindingFilter.RuleStore
