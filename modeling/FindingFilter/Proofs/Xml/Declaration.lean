import FindingFilter.Proofs.Xml.Token

/-!
# XML — the beginning of a document

A byte order mark and a declaration may stand in front of the tokens of a document. Where they end
is seen without looking further: what follows the first token changes nothing about them
(`afterDeclaration_append`).
-/

namespace FindingFilter.Xml

variable {text rest : List Char}

/-- A document after its byte order mark. -/
def afterMark (document : List Char) : List Char :=
  if document.head? == some '\uFEFF' then document.tail else document

/-- A document after its byte order mark and its declaration. -/
def afterDeclaration (document : List Char) : Except Error (List Char) :=
  if "<?xml ".toList.isPrefixOf (afterMark document) then
    skipDeclaration ((afterMark document).drop 5)
  else .ok (afterMark document)

theorem tokens_eq (document : List Char) :
    tokens document = afterDeclaration document >>= fun body => scanTokens body.length body := by
  unfold afterDeclaration
  show (if "<?xml ".toList.isPrefixOf (afterMark document) = true then _ else _) = _
  by_cases h : "<?xml ".toList.isPrefixOf (afterMark document) = true
  · rw [if_pos h, if_pos h]
    rfl
  · rw [if_neg h, if_neg h]
    rfl

theorem tokens_eq_ok_iff {document : List Char} {found : List Token} :
    tokens document = .ok found ↔
      ∃ body, afterDeclaration document = .ok body ∧ IsTokens body found := by
  rw [tokens_eq, bind_eq_ok_iff]
  exact exists_congr fun body => and_congr_right fun _ => scanTokens_eq_ok_iff (Nat.le_refl _)

theorem declarationGap_append (h : declarationGap text = .ok rest) (hne : rest ≠ [])
    (more : List Char) : declarationGap (text ++ more) = .ok (rest ++ more) := by
  unfold declarationGap at h
  split at h
  next => cases h; exact absurd rfl hne
  next c text =>
    rw [List.cons_append, declarationGap]
    split at h
    next hspace =>
      obtain rfl := Except.ok.inj h
      rw [if_pos hspace, ← List.cons_append, skipSpaces_append hne]
    next hspace =>
      rw [if_neg hspace]
      split at h
      next hend =>
        obtain rfl := Except.ok.inj h
        rw [← List.cons_append, if_pos (isPrefixOf_append hend more)]
      next => cases h

theorem suffix_of_declarationGap (h : declarationGap text = .ok rest) : rest <:+ text := by
  unfold declarationGap at h
  split at h
  next => cases h; exact List.suffix_rfl
  next c text =>
    split at h
    next => exact Except.ok.inj h ▸ skipSpaces_suffix _
    next =>
      split at h
      next => exact Except.ok.inj h ▸ List.suffix_rfl
      next => cases h

theorem skipEntry_append {name : String} {c : Char} (h : skipEntry name text = .ok rest)
    (hmem : c ∈ text) (hname : c ∉ name.toList) (more : List Char) :
    skipEntry name (text ++ more) = .ok (rest ++ more) := by
  unfold skipEntry at h ⊢
  rw [isPrefixOf_append_eq_of_mem hmem hname]
  split at h
  next hprefix =>
    obtain ⟨⟨found, value, after⟩, hattribute, h⟩ := bind_eq_ok_iff.mp h
    cases h
    rw [if_pos hprefix]
    exact bind_eq_ok_iff.mpr ⟨_, scanAttribute_append hattribute more, rfl⟩
  next hprefix =>
    obtain rfl := Except.ok.inj h
    rw [if_neg hprefix]

theorem suffix_of_skipEntry {name : String} (h : skipEntry name text = .ok rest) :
    rest <:+ text := by
  unfold skipEntry at h
  split at h
  next =>
    obtain ⟨⟨found, value, after⟩, hattribute, h⟩ := bind_eq_ok_iff.mp h
    cases h
    exact (suffix_of_scanAttribute hattribute).1
  next => exact Except.ok.inj h ▸ List.suffix_rfl

/-- The text after a declaration, from behind the encoding on. -/
def skipStandalone (text : List Char) : Except Error (List Char) := do
  expect "?>" (skipSpaces (← skipEntry "standalone" text))

/-- The text after a declaration, from behind the version on. -/
def skipEncoding (text : List Char) : Except Error (List Char) := do
  let afterEncoding ← skipEntry "encoding" text
  if "encoding".toList.isPrefixOf text then skipStandalone (← declarationGap afterEncoding)
  else skipStandalone text

/-- The mark at the end of a declaration shows that no entry goes on behind it. -/
theorem skipStandalone_append (h : skipStandalone text = .ok rest) (more : List Char) :
    '?' ∈ text ∧ skipStandalone (text ++ more) = .ok (rest ++ more) := by
  obtain ⟨between, hentry, hend⟩ := bind_eq_ok_iff.mp h
  have hbetween : skipSpaces between ≠ [] := ne_nil_of_expect (by decide) hend
  have hmem : '?' ∈ text := by
    refine ((skipSpaces_suffix between).trans (suffix_of_skipEntry hentry)).subset ?_
    rw [expect_eq_ok_iff.mp hend]
    simp
  refine ⟨hmem, bind_eq_ok_iff.mpr ⟨_, skipEntry_append hentry hmem (by decide) more, ?_⟩⟩
  rw [skipSpaces_append hbetween]
  exact expect_append hend more

theorem skipEncoding_append (h : skipEncoding text = .ok rest) (more : List Char) :
    '?' ∈ text ∧ skipEncoding (text ++ more) = .ok (rest ++ more) := by
  obtain ⟨between, hentry, h⟩ := bind_eq_ok_iff.mp h
  split at h
  next hencoding =>
    obtain ⟨after, hgap, h⟩ := bind_eq_ok_iff.mp h
    obtain ⟨hafter, hend⟩ := skipStandalone_append h more
    have hmem : '?' ∈ text :=
      ((suffix_of_declarationGap hgap).trans (suffix_of_skipEntry hentry)).subset hafter
    refine ⟨hmem, bind_eq_ok_iff.mpr ⟨_, skipEntry_append hentry hmem (by decide) more, ?_⟩⟩
    rw [if_pos (isPrefixOf_append hencoding more)]
    have hgap := declarationGap_append hgap (List.ne_nil_of_mem hafter) more
    exact bind_eq_ok_iff.mpr ⟨_, hgap, hend⟩
  next hencoding =>
    obtain ⟨hmem, hend⟩ := skipStandalone_append h more
    refine ⟨hmem, bind_eq_ok_iff.mpr ⟨_, skipEntry_append hentry hmem (by decide) more, ?_⟩⟩
    rw [isPrefixOf_append_eq_of_mem hmem (by decide), if_neg hencoding]
    exact hend

theorem skipDeclaration_eq (text : List Char) :
    skipDeclaration text = (do
      let text ← declarationGap text
      let _ ← expect "version" text
      skipEncoding (← declarationGap (← skipEntry "version" text))) := rfl

theorem skipDeclaration_append (h : skipDeclaration text = .ok rest) (more : List Char) :
    skipDeclaration (text ++ more) = .ok (rest ++ more) := by
  rw [skipDeclaration_eq] at h ⊢
  simp only [bind_eq_ok_iff] at h ⊢
  obtain ⟨first, hfirst, name, hversion, second, hsecond, third, hthird, h⟩ := h
  -- The mark at the end is in every text on the way to it.
  obtain ⟨hmem, hend⟩ := skipEncoding_append h more
  have hsecondMem : '?' ∈ second := (suffix_of_declarationGap hthird).subset hmem
  have hfirstMem : '?' ∈ first := (suffix_of_skipEntry hsecond).subset hsecondMem
  exact ⟨_, declarationGap_append hfirst (List.ne_nil_of_mem hfirstMem) more,
    _, expect_append hversion more,
    _, skipEntry_append hsecond hfirstMem (by decide) more,
    _, declarationGap_append hthird (List.ne_nil_of_mem hmem) more, hend⟩

theorem afterMark_append {document : List Char} (hne : afterMark document ≠ []) (more : List Char) :
    afterMark (document ++ more) = afterMark document ++ more := by
  cases document with
  | nil => exact absurd rfl hne
  | cons c document =>
    unfold afterMark
    rw [apply_ite (· ++ more)]
    rfl

/-- A part of the mark that begins a declaration is no text of tokens. -/
theorem not_prefix_of_isTokens {found : List Token} (h : IsTokens text found) (hne : text ≠ [])
    (hshort : text.length < 6) : ¬ text <+: "<?xml ".toList := by
  intro hprefix
  have hnone : ∀ n < 6, 0 < n → (scanTokens 6 ("<?xml ".toList.take n)).toOption = none := by decide
  have hpart := hnone text.length hshort (List.length_pos_iff.mpr hne)
  rw [← List.prefix_iff_eq_take.mp hprefix] at hpart
  rw [(scanTokens_eq_ok_iff (Nat.le_of_lt hshort)).mpr h] at hpart
  cases hpart

/-- Behind the first token no declaration begins. -/
theorem afterDeclaration_append {document body : List Char} {found : List Token}
    (h : afterDeclaration document = .ok body) (hbody : IsTokens body found) (hne : found ≠ [])
    (more : List Char) : afterDeclaration (document ++ more) = .ok (body ++ more) := by
  unfold afterDeclaration at h ⊢
  split at h
  next hprefix =>
    have hmark : afterMark document ≠ [] := by
      intro hnil
      rw [hnil] at hprefix
      cases hprefix
    have hlength : 5 ≤ (afterMark document).length := by
      exact Nat.le_of_succ_le (List.isPrefixOf_iff_prefix.mp hprefix).length_le
    rw [afterMark_append hmark, if_pos (isPrefixOf_append hprefix more),
      List.drop_append_of_le_length hlength]
    exact skipDeclaration_append h more
  next hprefix =>
    cases h
    have hmark : afterMark document ≠ [] := by
      intro hnil
      rw [hnil] at hbody
      exact hne (isTokens_nil_iff.mp hbody)
    rw [afterMark_append hmark, if_neg]
    by_cases hlength : "<?xml ".toList.length ≤ (afterMark document).length
    · rw [isPrefixOf_append_eq hlength]
      exact hprefix
    · intro hlong
      rw [List.isPrefixOf_iff_prefix] at hlong
      refine not_prefix_of_isTokens hbody hmark (Nat.lt_of_not_le hlength) ?_
      refine List.prefix_of_prefix_length_le (List.prefix_append _ more) hlong ?_
      exact Nat.le_of_not_le hlength

end FindingFilter.Xml
