import FindingFilter.Proofs.Results
import FindingFilter.Xml.Token
import Mathlib.Data.List.TakeDrop

/-!
# XML — scanning does not look ahead

What a scanner reads at the beginning of a text it reads at the beginning of every longer text as
well, and what follows is left: each scanner has a lemma `_append` that says so. A scanner that goes
on for as long as it can needs to have stopped before the end of the text; one that ends with a mark
of its own does not.

What a scanner leaves is an end of the text (`suffix_of_scanAttribute` and the lemmas before it), so
no scanner reads anything twice.
-/

namespace FindingFilter.Xml

variable {text rest : List Char}

/-! ## Runs of characters -/

theorem dropWhile_append_of_ne_nil {p : Char → Bool} (hne : text.dropWhile p ≠ [])
    (more : List Char) : (text ++ more).dropWhile p = text.dropWhile p ++ more := by
  rw [List.dropWhile_append, if_neg (mt List.isEmpty_iff.mp hne)]

theorem span_append {p : Char → Bool} {word : List Char} (h : text.span p = (word, rest))
    (hne : rest ≠ []) (more : List Char) : (text ++ more).span p = (word, rest ++ more) := by
  rw [List.span_eq_takeWhile_dropWhile, Prod.mk.injEq] at h
  obtain ⟨rfl, rfl⟩ := h
  have hshort : (text.takeWhile p).length ≠ text.length := by
    have hsplit := congrArg List.length (List.takeWhile_append_dropWhile (p := p) (l := text))
    have hpos := List.length_pos_iff.mpr hne
    rw [List.length_append] at hsplit
    omega
  rw [List.span_eq_takeWhile_dropWhile, dropWhile_append_of_ne_nil hne, List.takeWhile_append,
    if_neg hshort]

theorem suffix_of_span {p : Char → Bool} {word : List Char} (h : text.span p = (word, rest)) :
    rest <:+ text := by
  rw [List.span_eq_takeWhile_dropWhile, Prod.mk.injEq] at h
  rw [← h.2]
  exact List.dropWhile_suffix p

theorem skipSpaces_append (hne : skipSpaces text ≠ []) (more : List Char) :
    skipSpaces (text ++ more) = skipSpaces text ++ more :=
  dropWhile_append_of_ne_nil hne more

theorem skipSpaces_suffix (text : List Char) : skipSpaces text <:+ text :=
  List.dropWhile_suffix isSpace

theorem ne_nil_of_skipSpaces (hne : skipSpaces text ≠ []) : text ≠ [] := by
  rintro rfl
  exact hne rfl

/-! ## Marks -/

theorem isPrefixOf_append {mark : List Char} (h : mark.isPrefixOf text = true)
    (more : List Char) : mark.isPrefixOf (text ++ more) = true := by
  rw [List.isPrefixOf_iff_prefix] at h ⊢
  exact h.trans (List.prefix_append text more)

/-- Whether a text begins with a mark is seen if the text is long enough. -/
theorem isPrefixOf_append_eq {mark : List Char} (hlength : mark.length ≤ text.length)
    (more : List Char) : mark.isPrefixOf (text ++ more) = mark.isPrefixOf text := by
  rw [Bool.eq_iff_iff, List.isPrefixOf_iff_prefix, List.isPrefixOf_iff_prefix]
  refine ⟨fun h => List.prefix_of_prefix_length_le h (List.prefix_append text more) hlength, ?_⟩
  exact fun h => h.trans (List.prefix_append text more)

/-- It is seen as well if a character of the text is none of the mark. -/
theorem isPrefixOf_append_eq_of_mem {mark : List Char} {c : Char} (hmem : c ∈ text)
    (hmark : c ∉ mark) (more : List Char) :
    mark.isPrefixOf (text ++ more) = mark.isPrefixOf text := by
  rw [Bool.eq_iff_iff, List.isPrefixOf_iff_prefix, List.isPrefixOf_iff_prefix]
  refine ⟨fun h => ?_, fun h => h.trans (List.prefix_append text more)⟩
  obtain hshort | hlong := List.prefix_or_prefix_of_prefix h (List.prefix_append text more)
  · exact hshort
  · exact absurd (hlong.subset hmem) hmark

/-- What must stand at the beginning stands there, and the rest follows it. -/
theorem expect_eq_ok_iff {what : String} :
    expect what text = .ok rest ↔ text = what.toList ++ rest := by
  unfold expect
  constructor
  · intro h
    split at h
    next hprefix =>
      obtain ⟨after, rfl⟩ := List.isPrefixOf_iff_prefix.mp hprefix
      rw [← String.length_toList, List.drop_left] at h
      rw [Except.ok.inj h]
    next => cases h
  · rintro rfl
    rw [if_pos (List.isPrefixOf_iff_prefix.mpr (List.prefix_append _ rest)), ← String.length_toList,
      List.drop_left]

theorem expect_append {what : String} (h : expect what text = .ok rest) (more : List Char) :
    expect what (text ++ more) = .ok (rest ++ more) := by
  rw [expect_eq_ok_iff] at h ⊢
  rw [h, List.append_assoc]

theorem ne_nil_of_expect {what : String} (hwhat : what.toList ≠ [])
    (h : expect what text = .ok rest) : text ≠ [] := by
  rw [expect_eq_ok_iff.mp h]
  exact List.append_ne_nil_of_left_ne_nil hwhat rest

theorem suffix_of_expect {what : String} (h : expect what text = .ok rest) : rest <:+ text := by
  rw [expect_eq_ok_iff.mp h]
  exact List.suffix_append what.toList rest

/-! ## Names -/

theorem scanName_append {word : List Char} (h : scanName text = .ok (word, rest))
    (hne : rest ≠ []) (more : List Char) :
    scanName (text ++ more) = .ok (word, rest ++ more) := by
  cases text with
  | nil => cases h
  | cons c text =>
    rw [scanName] at h
    rw [List.cons_append, scanName]
    split at h
    next hstart =>
      rw [if_pos hstart, ← List.cons_append, span_append (Except.ok.inj h) hne more]
    next => cases h

theorem suffix_of_scanName {word : List Char} (h : scanName text = .ok (word, rest)) :
    rest <:+ text := by
  cases text with
  | nil => cases h
  | cons c text =>
    rw [scanName] at h
    split at h
    next => exact suffix_of_span (Except.ok.inj h)
    next => cases h

theorem scanQName_append {name : QName} (h : scanQName text = .ok (name, rest))
    (hne : rest ≠ []) (more : List Char) :
    scanQName (text ++ more) = .ok (name, rest ++ more) := by
  unfold scanQName at h ⊢
  cases hspan : text.span isNameChar with
  | mk word after =>
    simp only [hspan] at h
    split at h
    next => cases h
    next hname =>
      obtain ⟨rfl, rfl⟩ := Prod.mk.inj (Except.ok.inj h)
      simp only [span_append hspan hne more, if_neg hname]

theorem suffix_of_scanQName {name : QName} (h : scanQName text = .ok (name, rest)) :
    rest <:+ text := by
  unfold scanQName at h
  cases hspan : text.span isNameChar with
  | mk word after =>
    simp only [hspan] at h
    split at h
    next => cases h
    next =>
      obtain ⟨-, rfl⟩ := Prod.mk.inj (Except.ok.inj h)
      exact suffix_of_span hspan

/-! ## Everything up to a mark -/

theorem eq_append_of_scanUntil {stop taken : List Char}
    (h : scanUntil stop text = .ok (taken, rest)) : text = taken ++ rest := by
  induction text generalizing taken with
  | nil =>
    cases h
    rfl
  | cons c text ih =>
    rw [scanUntil] at h
    split at h
    next =>
      obtain ⟨rfl, rfl⟩ := Prod.mk.inj (Except.ok.inj h)
      rfl
    next =>
      split at h
      next =>
        split at h
        next front after hscan =>
          obtain ⟨rfl, rfl⟩ := Prod.mk.inj (Except.ok.inj h)
          rw [ih hscan, List.cons_append]
        next => cases h
      next => cases h

/-- A scan that stops before the end has found what stops it. -/
theorem prefix_of_scanUntil {stop taken : List Char} (h : scanUntil stop text = .ok (taken, rest))
    (hne : rest ≠ []) : stop <+: rest := by
  induction text generalizing taken with
  | nil =>
    cases h
    exact absurd rfl hne
  | cons c text ih =>
    rw [scanUntil] at h
    split at h
    next hstop =>
      obtain ⟨rfl, rfl⟩ := Prod.mk.inj (Except.ok.inj h)
      exact List.isPrefixOf_iff_prefix.mp hstop
    next =>
      split at h
      next =>
        split at h
        next front after hscan =>
          obtain ⟨rfl, rfl⟩ := Prod.mk.inj (Except.ok.inj h)
          exact ih hscan
        next => cases h
      next => cases h

/-- What stops the scan stands in the text, so it does not begin at an earlier place of a longer
text. -/
theorem scanUntil_append {stop taken : List Char} (h : scanUntil stop text = .ok (taken, rest))
    (hne : rest ≠ []) (more : List Char) :
    scanUntil stop (text ++ more) = .ok (taken, rest ++ more) := by
  induction text generalizing taken with
  | nil =>
    cases h
    exact absurd rfl hne
  | cons c text ih =>
    have hlength : stop.length ≤ (c :: text).length := by
      have hshort := (prefix_of_scanUntil h hne).length_le
      rw [eq_append_of_scanUntil h, List.length_append]
      omega
    have hsame := isPrefixOf_append_eq hlength more
    rw [List.cons_append] at hsame
    rw [scanUntil] at h
    rw [List.cons_append, scanUntil, hsame]
    split at h
    next hstop =>
      obtain ⟨rfl, rfl⟩ := Prod.mk.inj (Except.ok.inj h)
      rw [if_pos hstop, List.cons_append]
    next hstop =>
      rw [if_neg hstop]
      split at h
      next hchar =>
        rw [if_pos hchar]
        split at h
        next front after hscan =>
          obtain ⟨rfl, rfl⟩ := Prod.mk.inj (Except.ok.inj h)
          rw [ih hscan]
        next => cases h
      next => cases h

theorem suffix_of_scanUntil {stop taken : List Char}
    (h : scanUntil stop text = .ok (taken, rest)) : rest <:+ text := by
  rw [eq_append_of_scanUntil h]
  exact List.suffix_append taken rest

/-! ## Attributes -/

theorem scanQuote_eq_ok_iff {quote : Char} :
    scanQuote text = .ok (quote, rest) ↔ (quote = '"' ∨ quote = '\'') ∧ text = quote :: rest := by
  unfold scanQuote
  constructor
  · intro h
    split at h
    next => cases h; exact ⟨.inl rfl, rfl⟩
    next => cases h; exact ⟨.inr rfl, rfl⟩
    next => cases h
  · rintro ⟨rfl | rfl, rfl⟩
    · rfl
    · rfl

theorem scanQuote_append {quote : Char} (h : scanQuote text = .ok (quote, rest))
    (more : List Char) : scanQuote (text ++ more) = .ok (quote, rest ++ more) := by
  rw [scanQuote_eq_ok_iff] at h ⊢
  exact ⟨h.1, by rw [h.2, List.cons_append]⟩

theorem scanAttribute_append {name : QName} {value : List Char}
    (h : scanAttribute text = .ok (name, value, rest)) (more : List Char) :
    scanAttribute (text ++ more) = .ok (name, value, rest ++ more) := by
  unfold scanAttribute at h ⊢
  simp only [bind_eq_ok_iff, Prod.exists] at h ⊢
  obtain ⟨name, r1, hname, r2, hequals, quote, r3, hquote, value, r4, hvalue, h⟩ := h
  split at h
  next => cases h
  next hless =>
    obtain ⟨r5, hend, h⟩ := bind_eq_ok_iff.mp h
    cases h
    have hr1 : skipSpaces r1 ≠ [] := ne_nil_of_expect (by decide) hequals
    have hr2 : skipSpaces r2 ≠ [] := (scanQuote_eq_ok_iff.mp hquote).2 ▸ List.cons_ne_nil quote r3
    have hr4 : r4 ≠ [] := ne_nil_of_expect (by simp) hend
    refine ⟨name, r1 ++ more, scanQName_append hname (ne_nil_of_skipSpaces hr1) more,
      r2 ++ more, ?_, quote, r3 ++ more, ?_,
      value, r4 ++ more, scanUntil_append hvalue hr4 more, ?_⟩
    · rw [skipSpaces_append hr1]
      exact expect_append hequals more
    · rw [skipSpaces_append hr2]
      exact scanQuote_append hquote more
    · rw [if_neg hless]
      exact bind_eq_ok_iff.mpr ⟨rest ++ more, expect_append hend more, rfl⟩

theorem suffix_of_scanAttribute {name : QName} {value : List Char}
    (h : scanAttribute text = .ok (name, value, rest)) :
    rest <:+ text ∧ rest.length < text.length := by
  unfold scanAttribute at h
  simp only [bind_eq_ok_iff, Prod.exists] at h
  obtain ⟨name, r1, hname, r2, hequals, quote, r3, hquote, value, r4, hvalue, h⟩ := h
  split at h
  next => cases h
  next =>
    obtain ⟨r5, hend, h⟩ := bind_eq_ok_iff.mp h
    cases h
    have hfront : skipSpaces r1 <:+ text := (skipSpaces_suffix r1).trans (suffix_of_scanQName hname)
    have hquoted : r3 <:+ r2 := by
      refine List.IsSuffix.trans ?_ (skipSpaces_suffix r2)
      rw [(scanQuote_eq_ok_iff.mp hquote).2]
      exact List.suffix_cons quote r3
    have hback : rest <:+ r2 :=
      ((suffix_of_expect hend).trans (suffix_of_scanUntil hvalue)).trans hquoted
    refine ⟨(hback.trans (suffix_of_expect hequals)).trans hfront, ?_⟩
    -- The equals sign is not in the rest.
    have hequalsLength := congrArg List.length (expect_eq_ok_iff.mp hequals)
    have hfrontLength := hfront.length_le
    have hbackLength := hback.length_le
    rw [List.length_append, String.length_toList] at hequalsLength
    have hone : "=".length = 1 := rfl
    omega

end FindingFilter.Xml
