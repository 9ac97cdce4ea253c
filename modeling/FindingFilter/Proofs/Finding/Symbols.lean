import FindingFilter.Proofs.Text.Terminated
import FindingFilter.Finding
import Mathlib.Algebra.Order.BigOperators.Group.List
import Mathlib.Algebra.Order.Monoid.Unbundled.Basic
import Mathlib.Algebra.Order.Group.Nat

/-!
# Findings — the symbol text

Symbols are added to a finding one by one, and all that changes is its symbol text: it grows by one
terminated line for each symbol (`symbolText_withSymbols`). So what holds of terminated lines in
general holds of symbols.

Tokens without line breaks are read back as they were, but for empty ones (`symbols_withSymbols`).
Others may change: a line feed cuts a token in two, and a carriage return is lost at its end.
`symbols_withSymbols_iff` says that nothing else changes them.
-/

namespace FindingFilter

namespace Finding

variable {finding : Finding} {tokens : List String}

/-- Adding symbols only adds to the symbol text, a terminated line for each. -/
theorem symbolText_withSymbols (finding : Finding) (tokens : List String) :
    (finding.withSymbols tokens).symbolText.toList =
      finding.symbolText.toList ++ Text.terminated (tokens.map String.toList) := by
  induction tokens generalizing finding with
  | nil => simp [withSymbols, Text.terminated]
  | cons token tokens ih =>
    have hstep : (finding.withSymbol token).symbolText.toList =
        finding.symbolText.toList ++ (token.toList ++ ['\n']) := by
      simp [withSymbol]
    rw [withSymbols, List.foldl_cons, ← withSymbols, ih, hstep]
    simp [Text.terminated]

theorem symbolText_withSymbols_of_new (hnew : finding.symbolText = "") :
    (finding.withSymbols tokens).symbolText.toList = Text.terminated (tokens.map String.toList) := by
  rw [symbolText_withSymbols, hnew, String.toList_empty, List.nil_append]

/-- Nothing but the symbol text changes. -/
theorem withSymbols_eq (finding : Finding) (tokens : List String) :
    finding.withSymbols tokens =
      { finding with symbolText := (finding.withSymbols tokens).symbolText } := by
  induction tokens generalizing finding with
  | nil => rfl
  | cons token tokens ih => exact ih (finding.withSymbol token)

/-! ## Tokens that are read back -/

/-- What is read of tokens without line feeds lacks the carriage returns at their ends. -/
theorem toList_symbols_withSymbols (hnew : finding.symbolText = "")
    (htokens : ∀ token ∈ tokens, '\n' ∉ token.toList) :
    (finding.withSymbols tokens).symbols.map String.toList =
      ((tokens.map String.toList).map Text.withoutReturn).filter (!·.isEmpty) := by
  have hlines : ∀ line ∈ tokens.map String.toList, '\n' ∉ line := by simpa using htokens
  rw [symbols, symbolText_withSymbols_of_new hnew, Text.lines_terminated hlines, List.map_map]
  simp only [Function.comp_def, String.toList_ofList, List.map_id']

theorem toList_filter_tokens (tokens : List String) :
    (tokens.filter (· ≠ "")).map String.toList =
      (tokens.map String.toList).filter (!·.isEmpty) := by
  rw [List.filter_map]
  have hempty : (fun token : String => decide (token ≠ "")) =
      (fun line : List Char => !line.isEmpty) ∘ String.toList := by
    funext token
    rw [Bool.eq_iff_iff]
    simp
  rw [hempty]

/-- If the lines that are not empty are the same without returns, no line ends in one. Every line
that loses its return makes the whole shorter, and empty lines do not count for that. -/
theorem withoutReturn_eq_of_filter {lines : List (List Char)}
    (h : (lines.map Text.withoutReturn).filter (!·.isEmpty) = lines.filter (!·.isEmpty)) :
    ∀ line ∈ lines, Text.withoutReturn line = line := by
  have hlengths : (lines.map fun line => (Text.withoutReturn line).length).sum =
      (lines.map List.length).sum := by
    have hflatten : (lines.map Text.withoutReturn).flatten = lines.flatten := by
      rw [← List.flatten_filter_not_isEmpty, h, List.flatten_filter_not_isEmpty]
    have hlength := congrArg List.length hflatten
    rwa [List.length_flatten, List.length_flatten, List.map_map] at hlength
  have hshort (line : List Char) : (Text.withoutReturn line).length ≤ line.length :=
    (Text.isPrefix_withoutReturn line).length_le
  intro line hmem
  by_contra hlost
  have hshorter : (Text.withoutReturn line).length < line.length :=
    Nat.lt_of_le_of_ne (hshort line) fun hlength =>
      hlost ((Text.isPrefix_withoutReturn line).eq_of_length hlength)
  have hsum : (lines.map fun line => (Text.withoutReturn line).length).sum <
      (lines.map List.length).sum :=
    List.sum_lt_sum _ _ (fun other _ => hshort other) ⟨line, hmem, hshorter⟩
  exact absurd hlengths (Nat.ne_of_lt hsum)

theorem not_mem_of_mem_symbols {symbol : String} (h : symbol ∈ finding.symbols) :
    '\n' ∉ symbol.toList := by
  obtain ⟨line, hline, rfl⟩ := List.mem_map.mp h
  rw [String.toList_ofList]
  exact Text.not_mem_of_mem_lines (List.mem_filter.mp hline).1

/-- Tokens without line feeds are read back if and only if none loses a return. -/
theorem symbols_eq_filter_iff (hnew : finding.symbolText = "")
    (htokens : ∀ token ∈ tokens, '\n' ∉ token.toList) :
    (finding.withSymbols tokens).symbols = tokens.filter (· ≠ "") ↔
      ∀ token ∈ tokens, Text.withoutReturn token.toList = token.toList := by
  have hinjective : Function.Injective (List.map String.toList) :=
    List.map_injective_iff.mpr fun _ _ => String.toList_injective
  rw [← hinjective.eq_iff, toList_symbols_withSymbols hnew htokens, toList_filter_tokens]
  constructor
  · intro hsame token hmem
    exact withoutReturn_eq_of_filter hsame _ (List.mem_map_of_mem hmem)
  · intro hkept
    have hlines : ∀ line ∈ tokens.map String.toList, Text.withoutReturn line = line := by
      simpa using hkept
    rw [List.map_congr_left hlines, List.map_id']

theorem symbols_withSymbols (hnew : finding.symbolText = "")
    (htokens : ∀ token ∈ tokens, Text.IsUnbroken token.toList) :
    (finding.withSymbols tokens).symbols = tokens.filter (· ≠ "") := by
  have hfeeds : ∀ token ∈ tokens, '\n' ∉ token.toList :=
    fun token hmem => Text.not_mem_of_isUnbroken (htokens token hmem)
  exact (symbols_eq_filter_iff hnew hfeeds).mpr fun token hmem =>
    Text.withoutReturn_of_isUnbroken (htokens token hmem)

/-- **Symbols survive being kept in one text.** The symbols of a new finding are the tokens that were
added, in order and with repetitions, but for empty ones, if the tokens hold no line breaks. More
exactly, they are if and only if no token holds a line feed or ends in a carriage return. -/
theorem symbols_withSymbols_iff (hnew : finding.symbolText = "") :
    ((∀ token ∈ tokens, Text.IsUnbroken token.toList) →
      (finding.withSymbols tokens).symbols = tokens.filter (· ≠ "")) ∧
    ((finding.withSymbols tokens).symbols = tokens.filter (· ≠ "") ↔
      ∀ token ∈ tokens, '\n' ∉ token.toList ∧ token.toList.getLast? ≠ some '\r') := by
  refine ⟨symbols_withSymbols hnew, fun hsame => ?_, fun hkept => ?_⟩
  · -- An empty token has no line feed in it, and the others are symbols.
    have hfeeds : ∀ token ∈ tokens, '\n' ∉ token.toList := by
      intro token hmem
      by_cases hempty : token = ""
      · rw [hempty]
        exact List.not_mem_nil
      · have hsymbol : token ∈ (finding.withSymbols tokens).symbols := by
          rw [hsame]
          exact List.mem_filter.mpr ⟨hmem, by simpa using hempty⟩
        exact not_mem_of_mem_symbols hsymbol
    intro token hmem
    have hkept := (symbols_eq_filter_iff hnew hfeeds).mp hsame token hmem
    exact ⟨hfeeds token hmem, Text.withoutReturn_eq_self_iff.mp hkept⟩
  · have hfeeds : ∀ token ∈ tokens, '\n' ∉ token.toList := fun token hmem => (hkept token hmem).1
    exact (symbols_eq_filter_iff hnew hfeeds).mpr fun token hmem =>
      Text.withoutReturn_eq_self_iff.mpr (hkept token hmem).2

/-- Empty tokens are left out, and what is there twice stays twice. -/
theorem symbols_withSymbols_iff_repeated :
    let finding : Finding := { id := "unusedVariable", file := "a.c", line := 3 }
    let tokens := ["foo", "", "a b", "foo", ""]
    finding.symbolText = "" ∧ (∀ token ∈ tokens, Text.IsUnbroken token.toList) ∧
      (finding.withSymbols tokens).symbols = ["foo", "a b", "foo"] := by
  intro finding tokens
  have hnew : finding.symbolText = "" := rfl
  have htokens : ∀ token ∈ tokens, Text.IsUnbroken token.toList := by decide
  exact ⟨hnew, htokens, (symbols_withSymbols_iff hnew).1 htokens⟩

end Finding

end FindingFilter
