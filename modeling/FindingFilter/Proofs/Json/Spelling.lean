import FindingFilter.Json.Printer
import FindingFilter.Proofs.Text.LineNumber
import Mathlib.Data.List.Forall2
import Mathlib.Data.List.TakeDrop

/-!
# JSON — written tokens

What a run of tokens looks like as text: `lexeme` is the text of one token as this program writes it,
and `IsSpelled` says that a text is a run of tokens with white space in any places between them. The
lexical part of the reader takes every such text apart again (`tokens_of_isSpelled`).

* A string is read part by part: each written character gives one part back, and the parts together
  stand for the text (`exists_parts_of_text`, `textOf?_of_isPartOf`).
* A number is read as far as it goes, so what follows must not look like more of it (`EndsNumber`).
  That is the only place where two tokens could run into each other.
-/

namespace FindingFilter.Json

/-! ## Strings -/

/-- The three ways to write a character: behind a backslash, by its number, or as it is. -/
theorem escape_cases (c : Char) :
    (∃ letter, escape c = ['\\', letter] ∧ letter ≠ 'u' ∧ shortEscape? letter = some c) ∨
      (c.toNat < 0x20 ∧ escape c =
        ['\\', 'u', '0', '0', hexDigit (c.toNat / 16), hexDigit (c.toNat % 16)]) ∨
      (escape c = [c] ∧ c ≠ '"' ∧ c ≠ '\\' ∧ ¬ c.toNat < 0x20) := by
  unfold escape
  split
  case h_8 hquote hbackslash _ _ _ _ _ =>
    by_cases hcontrol : c.toNat < 0x20
    · exact Or.inr (Or.inl ⟨hcontrol, if_pos hcontrol⟩)
    · exact Or.inr (Or.inr ⟨if_neg hcontrol, hquote, hbackslash, hcontrol⟩)
  all_goals exact Or.inl ⟨_, rfl, by decide, rfl⟩

/-- A part of a string stands for the character: it is the character itself, or its number. Only
control characters are written by number, so the number is half of no surrogate pair. -/
inductive IsPartOf (c : Char) : StringPart → Prop where
  | char : IsPartOf c (.char c)
  | unit (h : c.toNat < 0x20) : IsPartOf c (.unit c.toNat)

/-- The digits of a control character are read as its number. -/
theorem codeUnit?_hexDigit {n : Nat} (h : n < 0x20) :
    codeUnit? '0' '0' (hexDigit (n / 16)) (hexDigit (n % 16)) = some n := by
  have hall : ∀ n < 0x20, codeUnit? '0' '0' (hexDigit (n / 16)) (hexDigit (n % 16)) = some n := by
    decide
  exact hall n h

/-- One written character is read as one part that stands for it. -/
theorem exists_part_of_escape (c : Char) :
    ∃ part, IsPartOf c part ∧ ∀ {rest after : List Char} {parts : List StringPart},
      scanString rest = .ok (parts, after) →
        scanString (escape c ++ rest) = .ok (part :: parts, after) := by
  rcases escape_cases c with ⟨letter, hform, hu, hletter⟩ | ⟨hcontrol, hform⟩ |
    ⟨hform, hquote, hbackslash, hplain⟩
  · -- Behind a backslash: `u` would begin a number, but no character is written with it alone.
    refine ⟨.char c, .char, fun {rest after parts} h => ?_⟩
    rw [hform, List.cons_append, List.singleton_append, scanString, hletter]
    · simp only [h]
    · intro _ _ _ _ _ heq
      exact absurd heq hu
  · -- By its number.
    refine ⟨.unit c.toNat, .unit hcontrol, fun {rest after parts} h => ?_⟩
    simp only [hform, List.cons_append, List.nil_append, scanString, codeUnit?_hexDigit hcontrol, h]
  · -- As it is: it neither ends the string nor begins an escape.
    refine ⟨.char c, .char, fun {rest after parts} h => ?_⟩
    rw [hform, List.singleton_append, scanString]
    · simp only [if_neg hbackslash, if_neg hplain, h]
    · exact hquote
    · intro _ _ _ _ _ heq
      exact absurd heq hbackslash
    · intro _ _ heq
      exact absurd heq hbackslash

theorem exists_parts_of_text (text rest : List Char) :
    ∃ parts, List.Forall₂ IsPartOf text parts ∧
      scanString (text.flatMap escape ++ '"' :: rest) = .ok (parts, rest) := by
  induction text with
  | nil => exact ⟨[], .nil, by rw [List.flatMap_nil, List.nil_append, scanString]⟩
  | cons c text ih =>
    obtain ⟨part, hpart, hread⟩ := exists_part_of_escape c
    obtain ⟨parts, hparts, hrest⟩ := ih
    refine ⟨part :: parts, .cons hpart hparts, ?_⟩
    rw [List.flatMap_cons, List.append_assoc]
    exact hread hrest

/-- A number that is half of no surrogate pair stands for its character, whatever follows. -/
theorem textOf?_unit {code : Nat} (h : code < 0xD800) (parts : List StringPart) :
    textOf? (.unit code :: parts) = (textOf? parts).map (Char.ofNat code :: ·) := by
  have hhigh : isHighSurrogate code = false := by
    simp only [isHighSurrogate, Bool.and_eq_false_iff, decide_eq_false_iff_not]
    omega
  have hlow : isLowSurrogate code = false := by
    simp only [isLowSurrogate, Bool.and_eq_false_iff, decide_eq_false_iff_not]
    omega
  cases parts with
  | nil => simp [textOf?, hhigh, hlow]
  | cons part parts =>
    cases part with
    | char c => simp [textOf?, hhigh, hlow]
    | unit low => simp [textOf?, hhigh, hlow]

theorem textOf?_of_isPartOf {text : List Char} {parts : List StringPart}
    (h : List.Forall₂ IsPartOf text parts) : textOf? parts = some text := by
  induction h with
  | nil => rfl
  | @cons c part text parts hpart h ih =>
    cases hpart with
    | char => rw [textOf?, ih, Option.map_some]
    | unit hcontrol =>
      rw [textOf?_unit (Nat.lt_trans hcontrol (by decide)), ih, Option.map_some, Char.ofNat_toNat]

/-! ## Numbers -/

/-- What may follow a number: nothing, or a character that cannot be a part of it. -/
def EndsNumber : List Char → Prop
  | [] => True
  | c :: _ => c.isDigit = false ∧ c ≠ '.' ∧ c ≠ 'e' ∧ c ≠ 'E'

/-- Only the numeral of zero begins with a zero. -/
theorem head?_toDigits_ne {n : Nat} (h : n ≠ 0) : (Nat.toDigits 10 n).head? ≠ some '0' := by
  induction n using Nat.strongRecOn with
  | _ n ih =>
    by_cases hsmall : n < 10
    · rw [Nat.toDigits_of_lt_base hsmall]
      simpa using h
    · -- The first digit is that of the number without its last one.
      have hrest : (Nat.toDigits 10 (n / 10)).head? ≠ some '0' := ih (n / 10) (by omega) (by omega)
      rw [Nat.toDigits_of_base_le (by decide) (by omega), List.head?_append_of_ne_nil]
      · exact hrest
      · exact Nat.toDigits_ne_nil

theorem scanDigits_append {digits rest : List Char} (hne : digits ≠ [])
    (hdigits : ∀ c ∈ digits, c.isDigit = true) (hrest : EndsNumber rest) :
    scanDigits (digits ++ rest) = .ok (digits, rest) := by
  have hstop : rest.takeWhile Char.isDigit = [] ∧ rest.dropWhile Char.isDigit = rest := by
    cases rest with
    | nil => exact ⟨rfl, rfl⟩
    | cons c rest => simp [hrest.1]
  have hspan : (digits ++ rest).span Char.isDigit = (digits, rest) := by
    rw [List.span_eq_takeWhile_dropWhile, List.takeWhile_append_of_pos hdigits,
      List.dropWhile_append_of_pos hdigits, hstop.1, hstop.2, List.append_nil]
  have hopen : digits.isEmpty = false := by simpa using hne
  simp only [scanDigits, hspan, hopen]
  rfl

theorem exists_cons_of_toString (n : Nat) :
    ∃ first digits, (toString n).toList = first :: digits ∧ first.isDigit = true := by
  cases hnumeral : (toString n).toList with
  | nil =>
    rw [Nat.toString_eq_ofList_toDigits, String.toList_ofList] at hnumeral
    exact absurd hnumeral Nat.toDigits_ne_nil
  | cons first digits =>
    refine ⟨first, digits, rfl, ?_⟩
    apply Text.isDigit_of_mem_toString (n := n)
    rw [hnumeral]
    exact List.mem_cons_self

/-- A numeral has one digit, or begins with another digit than zero. -/
theorem scanWhole_toString (n : Nat) {rest : List Char} (hrest : EndsNumber rest) :
    scanWhole ((toString n).toList ++ rest) = .ok ((toString n).toList, rest) := by
  have hne : (toString n).toList ≠ [] := by
    obtain ⟨first, digits, hnumeral, -⟩ := exists_cons_of_toString n
    rw [hnumeral]
    exact List.cons_ne_nil first digits
  have hzero :
      ((toString n).toList.head? == some '0' && (toString n).toList.length != 1) = false := by
    rw [Nat.toString_eq_ofList_toDigits, String.toList_ofList]
    by_cases hn : n = 0
    · subst hn
      rfl
    · simp [head?_toDigits_ne hn]
  have hdigits := scanDigits_append hne (fun c hc => Text.isDigit_of_mem_toString hc) hrest
  simp only [scanWhole, hdigits, bind, Except.bind, hzero]
  rfl

/-- A numeral is read as a number, to its end and not beyond. -/
theorem scanNumber_toString (n : Nat) {rest : List Char} (hrest : EndsNumber rest) :
    scanNumber ((toString n).toList ++ rest) = .ok ((toString n).toList, rest) := by
  have hfraction : scanFraction rest = .ok ([], rest) := by
    cases rest with
    | nil => rfl
    | cons c rest =>
      rw [scanFraction]
      intro _ heq
      exact absurd (List.cons.inj heq).1 hrest.2.1
  have hexponent : scanExponent rest = .ok ([], rest) := by
    cases rest with
    | nil => rfl
    | cons c rest => simp [scanExponent, hrest.2.2.1, hrest.2.2.2]
  unfold scanNumber
  -- A numeral has no sign in front.
  split
  next sign whole hsign =>
    split at hsign
    next more hminus =>
      obtain ⟨first, digits, hnumeral, hfirst⟩ := exists_cons_of_toString n
      rw [hnumeral, List.cons_append] at hminus
      rw [(List.cons.inj hminus).1] at hfirst
      exact absurd hfirst (by decide)
    next =>
      cases hsign
      simp only [scanWhole_toString n hrest, hfraction, hexponent, bind, Except.bind, pure,
        Except.pure, List.nil_append, List.append_nil]

/-! ## Tokens -/

/-- A token as it is written. -/
def lexeme : Token → List Char
  | .openBrace => ['{']
  | .closeBrace => ['}']
  | .openBracket => ['[']
  | .closeBracket => [']']
  | .comma => [',']
  | .colon => [':']
  | .null => "null".toList
  | .bool true => "true".toList
  | .bool false => "false".toList
  | .number digits => digits
  | .string text => quoteOption text

/-- The program writes such a token: its numbers are decimal numerals, and its strings stand for
texts. -/
def IsPlain : Token → Prop
  | .number digits => ∃ n : Nat, digits = (toString n).toList
  | .string text => text ≠ none
  | _ => True

/-- The token does not run into the text behind it. -/
def IsEndedBy (rest : List Char) : Token → Prop
  | .number _ => EndsNumber rest
  | _ => True

theorem isSpace_of_isDigit {c : Char} (h : c.isDigit = true) : isSpace c = false := by
  rw [← Bool.not_eq_true]
  intro hspace
  simp only [isSpace, Bool.or_eq_true, beq_iff_eq] at hspace
  rcases hspace with ((rfl | rfl) | rfl) | rfl <;> exact absurd h (by decide)

theorem scanToken_of_isDigit {c : Char} (h : c.isDigit = true) (rest : List Char) :
    scanToken (c :: rest) =
      scanNumber (c :: rest) >>= fun found => .ok (.number found.1, found.2) := by
  unfold scanToken
  split
  case h_1 heq => cases heq
  case h_12 heq =>
    obtain ⟨rfl, rfl⟩ := List.cons.inj heq
    rw [if_pos (Or.inr h)]
    rfl
  all_goals
    -- No other token begins with a digit.
    rename_i heq
    cases heq
    exact absurd h (by decide)

/-- **A written token is read back**, and what stands behind it is left. -/
theorem scanToken_lexeme {token : Token} (hplain : IsPlain token) {rest : List Char}
    (hend : IsEndedBy rest token) : scanToken (lexeme token ++ rest) = .ok (token, rest) := by
  cases token with
  | number digits =>
    obtain ⟨n, rfl⟩ := hplain
    obtain ⟨first, digits, hnumeral, hfirst⟩ := exists_cons_of_toString n
    have hread := scanNumber_toString n hend
    rw [lexeme, hnumeral, List.cons_append] at *
    rw [scanToken_of_isDigit hfirst, hread]
    rfl
  | string text =>
    cases text with
    | none => exact absurd rfl hplain
    | some text =>
      obtain ⟨parts, hparts, hread⟩ := exists_parts_of_text text rest
      have hform : lexeme (.string (some text)) ++ rest =
          '"' :: (text.flatMap escape ++ '"' :: rest) := by
        simp [lexeme, quoteOption, quote]
      rw [hform, scanToken, hread]
      simp only [bind, Except.bind, textOf?_of_isPartOf hparts]
      rfl
  | bool value => cases value <;> rfl
  | _ => rfl

theorem exists_cons_of_lexeme {token : Token} (hplain : IsPlain token) :
    ∃ c more, lexeme token = c :: more ∧ isSpace c = false := by
  cases token with
  | number digits =>
    obtain ⟨n, rfl⟩ := hplain
    obtain ⟨first, digits, hnumeral, hfirst⟩ := exists_cons_of_toString n
    exact ⟨first, digits, hnumeral, isSpace_of_isDigit hfirst⟩
  | string text => exact ⟨'"', _, rfl, by decide⟩
  | bool value =>
    cases value with
    | false => exact ⟨'f', _, rfl, by decide⟩
    | true => exact ⟨'t', _, rfl, by decide⟩
  | null => exact ⟨'n', _, rfl, by decide⟩
  | _ => exact ⟨_, [], rfl, by decide⟩

/-- The text is the run of tokens, with white space in any places between them, in front of the first
and behind the last. -/
inductive IsSpelled : List Token → List Char → Prop where
  | nil : IsSpelled [] []
  | space {c : Char} {tokens : List Token} {text : List Char} (hspace : isSpace c = true)
      (h : IsSpelled tokens text) : IsSpelled tokens (c :: text)
  | token {token : Token} {tokens : List Token} {text : List Char} (hplain : IsPlain token)
      (hend : IsEndedBy text token) (h : IsSpelled tokens text) :
      IsSpelled (token :: tokens) (lexeme token ++ text)

/-- Each step takes at least one character, so any fuel of the length of the text is enough. -/
theorem scanTokens_of_isSpelled {spelled : List Token} {text : List Char}
    (h : IsSpelled spelled text) :
    ∀ fuel, text.length ≤ fuel → scanTokens fuel text = .ok spelled := by
  induction h with
  | nil =>
    intro fuel _
    rw [scanTokens]
  | @space c spelled text hspace h ih =>
    intro fuel hfuel
    cases fuel with
    | zero => simp at hfuel
    | succ fuel =>
      rw [scanTokens, if_pos hspace]
      exact ih fuel (by simpa using hfuel)
  | @token token spelled text hplain hend h ih =>
    intro fuel hfuel
    obtain ⟨c, more, hform, hspace⟩ := exists_cons_of_lexeme hplain
    have hread := scanToken_lexeme hplain hend
    rw [hform, List.cons_append] at hread hfuel ⊢
    cases fuel with
    | zero => simp at hfuel
    | succ fuel =>
      have hrest : scanTokens fuel text = .ok spelled := by
        apply ih
        simp only [List.length_cons, List.length_append] at hfuel
        omega
      rw [scanTokens, if_neg (by simp [hspace]), hread]
      simp only [bind, Except.bind, hrest]
      rfl

/-- **Spelled tokens are told apart.** -/
theorem tokens_of_isSpelled {spelled : List Token} {text : List Char}
    (h : IsSpelled spelled text) : tokens text = .ok spelled :=
  scanTokens_of_isSpelled h text.length (Nat.le_refl _)

end FindingFilter.Json
