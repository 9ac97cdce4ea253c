import FindingFilter.Proofs.Xml.Declaration

/-!
# XML — a comment between the tokens of a document

The tokens of two texts one after the other are those of both, except that character data at the end
of one text goes on in the other (`IsGlued`, `IsTokens.of_append`). In front of a mark there is
nothing to glue (`IsTokens.append_mark`).

A comment begins with a mark and ends with one. So a document with a comment put into it has the
tokens of both parts and the comment between them, where the document itself has them glued together
(`tokens_comment`).
-/

namespace FindingFilter.Xml

variable {text rest : List Char}

/-! ## Texts one after the other -/

/-- A text without the mark goes on up to the mark. -/
theorem scanUntil_append_eq {stop : Char} {taken : List Char}
    (h : scanUntil [stop] text = .ok (taken, [])) (more : List Char) :
    scanUntil [stop] (text ++ more) =
      (scanUntil [stop] more).map fun found => (text ++ found.1, found.2) := by
  induction text generalizing taken with
  | nil =>
    rw [List.nil_append]
    cases scanUntil [stop] more <;> rfl
  | cons c text ih =>
    rw [scanUntil] at h
    split at h
    next => cases h
    next hstop =>
      have hstop' : ¬ [stop].isPrefixOf (c :: (text ++ more)) = true := by
        simpa [List.isPrefixOf] using hstop
      rw [List.cons_append, scanUntil, if_neg hstop']
      split at h
      next hchar =>
        rw [if_pos hchar]
        split at h
        next front after hscan =>
          cases h
          rw [ih hscan]
          cases scanUntil [stop] more <;> rfl
        next => cases h
      next => cases h

/-- The tokens of two texts one after the other, from the tokens of both: the same tokens, except
that character data goes on if one text ends with it and the other begins with it. -/
inductive IsGlued : List Token → List Token → List Token → Prop where
  | apart (left right : List Token) : IsGlued left right (left ++ right)
  | within (left right : List Token) (front back : List Char) :
      IsGlued (left ++ [.text front]) (.text back :: right) (left ++ .text (front ++ back) :: right)

theorem IsGlued.cons {left right all : List Token} (h : IsGlued left right all) (token : Token) :
    IsGlued (token :: left) right (token :: all) := by
  cases h with
  | apart => exact .apart (token :: left) right
  | within left right front back => exact .within (token :: left) right front back

/-- What does not begin with a mark is character data up to the next one. -/
theorem isToken_iff_of_head {token : Token} (hhead : text.head? ≠ some '<') :
    IsToken text token rest ↔ ∃ data, token = .text data ∧
      scanUntil ['<'] text = .ok (data, rest) ∧ holds "]]>" data = false := by
  refine ⟨fun h => ?_, ?_⟩
  · cases h with
    | text _ hdata hsection => exact ⟨_, rfl, hdata, hsection⟩
    | _ => exact absurd rfl hhead
  · rintro ⟨data, rfl, hdata, hsection⟩
    exact .text hhead hdata hsection

/-- A text that is one token of character data, to its end. -/
structure IsCharacterData (text : List Char) : Prop where
  hne : text ≠ []
  hhead : text.head? ≠ some '<'
  hdata : scanUntil ['<'] text = .ok (text, [])
  hsection : holds "]]>" text = false

/-- Only character data may go on behind the end of the text. -/
theorem IsToken.isCharacterData_or_append {token : Token} (h : IsToken text token rest)
    (hne : text ≠ []) :
    rest = [] ∧ token = .text text ∧ IsCharacterData text ∨
      ∀ more, IsToken (text ++ more) token (rest ++ more) := by
  by_cases hclosed : rest = [] → ∀ data, token ≠ .text data
  · exact .inr (h.append hclosed)
  · push Not at hclosed
    obtain ⟨rfl, data, rfl⟩ := hclosed
    cases h with
    | text hhead hdata hsection =>
      have hall := eq_append_of_scanUntil hdata
      rw [List.append_nil] at hall
      subst hall
      exact .inl ⟨rfl, rfl, hne, hhead, hdata, hsection⟩

theorem IsCharacterData.isToken_append_iff (h : IsCharacterData text) {more : List Char}
    {token : Token} : IsToken (text ++ more) token rest ↔ ∃ back, token = .text (text ++ back) ∧
      scanUntil ['<'] more = .ok (back, rest) ∧ holds "]]>" (text ++ back) = false := by
  have hhead : (text ++ more).head? ≠ some '<' := by
    rw [List.head?_append_of_ne_nil text h.hne]
    exact h.hhead
  rw [isToken_iff_of_head hhead, scanUntil_append_eq h.hdata]
  cases scanUntil ['<'] more with
  | error cause => simp [Except.map]
  | ok found =>
    obtain ⟨front, after⟩ := found
    constructor
    · rintro ⟨data, rfl, hdata, hsection⟩
      cases hdata
      exact ⟨front, rfl, rfl, hsection⟩
    · rintro ⟨back, rfl, hback, hsection⟩
      cases hback
      exact ⟨_, rfl, rfl, hsection⟩

theorem holds_right {run : String} {front back : List Char}
    (h : holds run (front ++ back) = false) : holds run back = false := by
  rw [Bool.eq_false_iff] at h ⊢
  refine fun hback => h ?_
  rw [holds, Text.occursIn_iff_isInfix] at hback ⊢
  exact hback.trans (List.suffix_append front back).isInfix

/-- In front of a mark a text ends. -/
theorem IsTokens.append_mark {left right : List Token} (hleft : IsTokens text left)
    {more : List Char} (hright : IsTokens ('<' :: more) right) :
    IsTokens (text ++ '<' :: more) (left ++ right) := by
  induction hleft with
  | nil => exact hright
  | @cons text rest token later hne htoken hrest ih =>
    have hwhole : text ++ '<' :: more ≠ [] := List.append_ne_nil_of_left_ne_nil hne _
    obtain ⟨rfl, rfl, hdata⟩ | hclosed := htoken.isCharacterData_or_append hne
    · rw [isTokens_nil_iff.mp hrest]
      refine .cons hwhole (hdata.isToken_append_iff.mpr ⟨[], ?_, ?_, ?_⟩) hright
      · rw [List.append_nil]
      · rfl
      · rw [List.append_nil]
        exact hdata.hsection
    · exact .cons hwhole (hclosed _) ih

/-- Two texts one after the other have the tokens of both. -/
theorem IsTokens.of_append {left all : List Token} (hleft : IsTokens text left) {more : List Char}
    (h : IsTokens (text ++ more) all) : ∃ right, IsTokens more right ∧ IsGlued left right all := by
  induction hleft generalizing all with
  | nil => exact ⟨all, h, .apart [] all⟩
  | @cons text rest token later hne htoken hrest ih =>
    obtain ⟨first, after, others, rfl, hfirst, hothers⟩ :=
      h.exists_cons (List.append_ne_nil_of_left_ne_nil hne more)
    obtain ⟨rfl, rfl, hdata⟩ | hclosed := htoken.isCharacterData_or_append hne
    · -- The last token of the first text goes on in the other, as far as there is no mark.
      rw [isTokens_nil_iff.mp hrest]
      obtain ⟨back, rfl, hback, hsection⟩ := hdata.isToken_append_iff.mp hfirst
      by_cases hnil : back = []
      · subst hnil
        rw [List.append_nil, eq_append_of_scanUntil hback]
        exact ⟨others, hothers, .apart [.text text] others⟩
      · refine ⟨.text back :: others, ?_, .within [] others text back⟩
        have hsplit := eq_append_of_scanUntil hback
        have hmore : more ≠ [] := hsplit ▸ List.append_ne_nil_of_left_ne_nil hnil after
        refine .cons hmore (.text ?_ hback (holds_right hsection)) hothers
        intro hmark
        obtain ⟨tail, rfl⟩ := List.head?_eq_some_iff.mp hmark
        cases hback
        exact hnil rfl
    · obtain ⟨rfl, rfl⟩ := hfirst.unique (hclosed more)
      obtain ⟨right, hright, hglued⟩ := ih hothers
      exact ⟨right, hright, hglued.cons first⟩

/-! ## Comments -/

/-- What stands in a comment: no two dashes in a row, and no dash at the end. -/
inductive IsCommentBody : List Char → Prop where
  | nil : IsCommentBody []
  | char {c : Char} {body : List Char} (hchar : isXmlChar c = true) (hdash : c ≠ '-')
      (h : IsCommentBody body) : IsCommentBody (c :: body)
  | dash {c : Char} {body : List Char} (hchar : isXmlChar c = true) (hdash : c ≠ '-')
      (h : IsCommentBody body) : IsCommentBody ('-' :: c :: body)

/-- A comment as it is written. -/
inductive IsComment : List Char → Prop where
  | intro {body : List Char} (h : IsCommentBody body) :
      IsComment ('<' :: '!' :: '-' :: '-' :: (body ++ "-->".toList))

variable {body : List Char}

theorem scanUntil_cons {stop text taken rest : List Char} {c : Char}
    (hstop : ¬ stop.isPrefixOf (c :: text) = true) (hchar : isXmlChar c = true)
    (h : scanUntil stop text = .ok (taken, rest)) :
    scanUntil stop (c :: text) = .ok (c :: taken, rest) := by
  rw [scanUntil, if_neg hstop, if_pos hchar, h]

/-- The mark at the end does not begin inside a comment. -/
theorem IsCommentBody.scanUntil_append (h : IsCommentBody body) (more : List Char) :
    scanUntil "-->".toList (body ++ ("-->".toList ++ more)) = .ok (body, "-->".toList ++ more) := by
  have hmark {c : Char} (hdash : c ≠ '-') (text : List Char) :
      ¬ "-->".toList.isPrefixOf (c :: text) = true := by
    simp [List.isPrefixOf, hdash.symm]
  induction h with
  | nil => rfl
  | char hchar hdash h ih => exact scanUntil_cons (hmark hdash _) hchar ih
  | dash hchar hdash h ih =>
    refine scanUntil_cons ?_ (by decide) (scanUntil_cons (hmark hdash _) hchar ih)
    simp [List.isPrefixOf, hdash.symm]

theorem IsCommentBody.holds_eq_false (h : IsCommentBody body) : holds "--" body = false := by
  unfold holds
  induction h with
  | nil => rfl
  | char hchar hdash h ih => simpa [Text.occursIn, List.isPrefixOf, hdash.symm] using ih
  | dash hchar hdash h ih => simpa [Text.occursIn, List.isPrefixOf, hdash.symm] using ih

theorem IsCommentBody.getLast?_ne (h : IsCommentBody body) : body.getLast? ≠ some '-' := by
  induction h with
  | nil => nofun
  | @char c body hchar hdash h ih =>
    cases body with
    | nil => simp [hdash]
    | cons d body => rwa [List.getLast?_cons_cons]
  | @dash c body hchar hdash h ih =>
    cases body with
    | nil => simp [hdash]
    | cons d body => rwa [List.getLast?_cons_cons, List.getLast?_cons_cons]

theorem IsComment.isTokens_append {comment after : List Char} (h : IsComment comment)
    {right : List Token} (hright : IsTokens after right) :
    IsTokens (comment ++ after) (.comment :: right) := by
  cases h with
  | @intro body h =>
    refine .cons (List.cons_ne_nil _ _) ?_ hright
    have hbody := h.scanUntil_append after
    rw [← List.append_assoc] at hbody
    exact .comment hbody h.holds_eq_false h.getLast?_ne

/-- **A comment is a token of its own.** -/
theorem tokens_comment {before comment after : List Char} {left all : List Token}
    (hleft : tokens before = .ok left) (hne : left ≠ []) (hcomment : IsComment comment)
    (hall : tokens (before ++ after) = .ok all) :
    ∃ right, IsGlued left right all ∧
      tokens (before ++ (comment ++ after)) = .ok (left ++ .comment :: right) := by
  obtain ⟨body, hbody, hleft⟩ := tokens_eq_ok_iff.mp hleft
  obtain ⟨whole, hwhole, hall⟩ := tokens_eq_ok_iff.mp hall
  have happend := afterDeclaration_append hbody hleft hne
  rw [happend after] at hwhole
  cases hwhole
  obtain ⟨right, hright, hglued⟩ := hleft.of_append hall
  refine ⟨right, hglued, tokens_eq_ok_iff.mpr ⟨_, happend (comment ++ after), ?_⟩⟩
  have hmark := hcomment.isTokens_append hright
  cases hcomment with
  | intro => exact hleft.append_mark hmark

end FindingFilter.Xml
