import FindingFilter.Proofs.Finding.Symbols
import FindingFilter.Rule.Basic

/-!
# Rules — the symbol constraint

A rule with a symbol looks for that symbol, with a line feed behind it, in the symbol text of a
finding. This module says which findings that covers: those with a symbol that *ends in* the symbol
asked for (`symbolCovers_withSymbols_iff`), whatever stands in front of it. A symbol that only
begins another one, or stands inside it, is not found.

The rule is thus not about whole symbols. `covers_withSymbols_iff` says exactly when it behaves as
if it were, and `covers_longer_symbol` is a finding where it does not.
-/

namespace FindingFilter

namespace Rule

/-- The constraints of the rule other than the one on symbols hold of the finding. -/
def coversPlace (rule : Rule) (matching : FileMatching) (finding : Finding) : Bool :=
  rule.idCovers finding && rule.fileCovers matching finding && rule.lineCovers finding

variable {rule : Rule} {finding : Finding} {tokens : List String}

theorem covers_eq (rule : Rule) (matching : FileMatching) (finding : Finding) :
    rule.covers matching finding =
      (rule.coversPlace matching finding && rule.symbolCovers finding) := rfl

/-- Symbols do not count for the other constraints. -/
theorem coversPlace_withSymbols (rule : Rule) (matching : FileMatching) (finding : Finding)
    (tokens : List String) :
    rule.coversPlace matching (finding.withSymbols tokens) = rule.coversPlace matching finding := by
  rw [Finding.withSymbols_eq]
  rfl

/-- **The symbol test looks at the ends of the symbols only.** -/
theorem symbolCovers_withSymbols_iff (hsymbol : rule.symbol ≠ "")
    (hrule : Text.IsUnbroken rule.symbol.toList) (hnew : finding.symbolText = "")
    (htokens : ∀ token ∈ tokens, Text.IsUnbroken token.toList) :
    rule.symbolCovers (finding.withSymbols tokens) = true ↔
      ∃ token ∈ tokens, rule.symbol.toList <:+ token.toList := by
  have hlines : ∀ line ∈ tokens.map String.toList, Text.IsUnbroken line := by
    simpa using htokens
  have hopen : ¬ rule.symbol.isEmpty = true := by simpa using hsymbol
  rw [symbolCovers, Finding.symbolText_withSymbols_of_new hnew, Bool.or_eq_true,
    Text.occursIn_terminated_iff hrule hlines, or_iff_right hopen]
  constructor
  · rintro ⟨line, hmem, hsuffix⟩
    obtain ⟨token, htoken, rfl⟩ := List.mem_map.mp hmem
    exact ⟨token, htoken, hsuffix⟩
  · rintro ⟨token, htoken, hsuffix⟩
    exact ⟨token.toList, List.mem_map_of_mem htoken, hsuffix⟩

/-- The symbols of a new finding are the tokens it was given, but for empty ones. -/
theorem mem_symbols_withSymbols_iff {symbol : String} (hsymbol : symbol ≠ "")
    (hnew : finding.symbolText = "") (htokens : ∀ token ∈ tokens, Text.IsUnbroken token.toList) :
    symbol ∈ (finding.withSymbols tokens).symbols ↔ symbol ∈ tokens := by
  rw [Finding.symbols_withSymbols hnew htokens, List.mem_filter,
    and_iff_left (by simpa using hsymbol)]

/-- **What a rule with a symbol covers.** Besides the other constraints, some token must end in the
symbol. The finding's symbols are its tokens, so to ask for a whole token would be to ask that the
symbol is one of them; the two agree unless the symbol is none of the tokens but ends one. -/
theorem covers_withSymbols_iff (matching : FileMatching) (hsymbol : rule.symbol ≠ "")
    (hrule : Text.IsUnbroken rule.symbol.toList) (hnew : finding.symbolText = "")
    (htokens : ∀ token ∈ tokens, Text.IsUnbroken token.toList) :
    (rule.covers matching (finding.withSymbols tokens) = true ↔
      rule.coversPlace matching finding = true ∧
        ∃ token ∈ tokens, rule.symbol.toList <:+ token.toList) ∧
    (rule.symbol ∈ (finding.withSymbols tokens).symbols ↔ rule.symbol ∈ tokens) ∧
    ((rule.covers matching (finding.withSymbols tokens) = true ↔
        rule.coversPlace matching finding = true ∧ rule.symbol ∈ tokens) ↔
      ¬ (rule.coversPlace matching finding = true ∧ rule.symbol ∉ tokens ∧
        ∃ token ∈ tokens, rule.symbol.toList <:+ token.toList)) := by
  have hcovers : rule.covers matching (finding.withSymbols tokens) = true ↔
      rule.coversPlace matching finding = true ∧
        ∃ token ∈ tokens, rule.symbol.toList <:+ token.toList := by
    rw [covers_eq, Bool.and_eq_true, coversPlace_withSymbols,
      symbolCovers_withSymbols_iff hsymbol hrule hnew htokens]
  -- A token is one of its own ends, so only the other direction can fail.
  have hends (h : rule.symbol ∈ tokens) : ∃ token ∈ tokens, rule.symbol.toList <:+ token.toList :=
    ⟨rule.symbol, h, List.suffix_refl _⟩
  refine ⟨hcovers, mem_symbols_withSymbols_iff hsymbol hnew htokens, ?_⟩
  rw [hcovers]
  constructor
  · rintro hwhole ⟨hplace, hnot, htoken⟩
    exact hnot (hwhole.mp ⟨hplace, htoken⟩).2
  · intro hexcept
    constructor
    · rintro ⟨hplace, htoken⟩
      exact ⟨hplace, Decidable.byContradiction fun hnot => hexcept ⟨hplace, hnot, htoken⟩⟩
    · rintro ⟨hplace, hmem⟩
      exact ⟨hplace, hends hmem⟩

/-- A rule about `bar` covers a finding about `foo` and `foobar`. -/
theorem covers_finding_about_foobar :
    "bar" ≠ "" ∧ Text.IsUnbroken "bar".toList ∧
      (∀ token ∈ ["foo", "foobar"], Text.IsUnbroken token.toList) ∧
      Rule.covers { id := "unusedVariable", file := "a.c", symbol := "bar" } .literal
        (Finding.withSymbols { id := "unusedVariable", file := "a.c" } ["foo", "foobar"]) = true := by
  refine ⟨by decide, by decide, by decide, ?_⟩
  apply (covers_withSymbols_iff .literal (by decide) (by decide) rfl (by decide)).1.mpr
  exact ⟨by decide, "foobar", by decide, by decide⟩

/-- **No test for whole symbols.** A rule about `bar` covers a finding about `foobar` alone, though
`bar` is none of its symbols; both ways to compare files agree on it. -/
theorem covers_longer_symbol :
    ¬ (Rule.covers { id := "*", symbol := "bar" } .literal
          (Finding.withSymbols { id := "unusedVariable" } ["foobar"]) = true ↔
        Rule.coversPlace { id := "*", symbol := "bar" } .literal { id := "unusedVariable" } = true ∧
          "bar" ∈ ["foobar"]) ∧
    ¬ (Rule.covers { id := "*", symbol := "bar" } .glob
          (Finding.withSymbols { id := "unusedVariable" } ["foobar"]) = true ↔
        Rule.coversPlace { id := "*", symbol := "bar" } .glob { id := "unusedVariable" } = true ∧
          "bar" ∈ ["foobar"]) := by
  decide

end Rule

end FindingFilter
