import FindingFilter.Proofs.Text.Terminated
import FindingFilter.Proofs.Xml.Scanning
import Mathlib.Data.List.Basic

/-!
# XML — the tokens of a text

The relations `IsTagRest`, `IsToken` and `IsTokens` say what is read without saying how many steps
it takes. The fuel of the scanners bounds the number of attributes and of tokens and nothing else
(`scanTagRest_eq_ok_iff`, `scanToken_eq_ok_iff`), and the length of a text is enough of it
(`scanTokens_eq_ok_iff`).

A token is read from every longer text as well, unless it is character data at the end of the text,
which may go on (`IsToken.append`).
-/

namespace FindingFilter.Xml

variable {text rest : List Char}

/-! ## Start tags -/

/-- What stands in a start tag behind the name. -/
inductive IsTagRest : List Char → List Attribute → Bool → List Char → Prop where
  | close {text rest : List Char} (h : skipSpaces text = '>' :: rest) : IsTagRest text [] false rest
  | closeEmpty {text rest : List Char} (h : skipSpaces text = '/' :: '>' :: rest) :
      IsTagRest text [] true rest
  | cons {text between rest : List Char} {name : QName} {data value : List Char}
      {attributes : List Attribute} {empty : Bool} (hspace : text.head?.any isSpace = true)
      (hattribute : scanAttribute (skipSpaces text) = .ok (name, data, between))
      (hvalue : readValue data = .ok value) (hbetween : IsTagRest between attributes empty rest) :
      IsTagRest text (⟨name, value⟩ :: attributes) empty rest

theorem scanQName_cons_of_not {c : Char} (h : isNameChar c = false) :
    scanQName (c :: text) = .error .badName := by
  unfold scanQName
  rw [List.span_eq_takeWhile_dropWhile, List.takeWhile_cons_of_neg (by simp [h])]
  rfl

theorem scanAttribute_cons_of_not {c : Char} (h : isNameChar c = false) :
    scanAttribute (c :: text) = .error .badName := by
  unfold scanAttribute
  rw [scanQName_cons_of_not h]
  rfl

/-- No attribute begins with a mark. -/
theorem isNameChar_of_scanAttribute {c : Char} {name : QName} {value : List Char}
    (h : scanAttribute (c :: text) = .ok (name, value, rest)) : isNameChar c = true := by
  by_contra hchar
  rw [scanAttribute_cons_of_not (Bool.eq_false_iff.mpr hchar)] at h
  cases h

theorem IsTagRest.ne_nil {attributes : List Attribute} {empty : Bool}
    (h : IsTagRest text attributes empty rest) : skipSpaces text ≠ [] := by
  cases h with
  | close h => exact h ▸ List.cons_ne_nil '>' rest
  | closeEmpty h => exact h ▸ List.cons_ne_nil '/' ('>' :: rest)
  | cons hspace hattribute hvalue hbetween =>
    intro hnil
    rw [hnil] at hattribute
    cases hattribute

theorem isTagRest_of_scanTagRest {fuel : Nat} {attributes : List Attribute} {empty : Bool}
    (h : scanTagRest fuel text = .ok (attributes, empty, rest)) :
    IsTagRest text attributes empty rest ∧ attributes.length ≤ fuel := by
  fun_induction scanTagRest fuel text generalizing attributes empty rest with
  | case1 fuel text hspaces => cases h
  | case2 fuel text after hspaces =>
    cases h
    exact ⟨.close hspaces, Nat.zero_le fuel⟩
  | case3 fuel text after hspaces =>
    obtain ⟨_, hend, h⟩ := bind_eq_ok_iff.mp h
    cases h
    rw [expect_eq_ok_iff.mp hend] at hspaces
    exact ⟨.closeEmpty hspaces, Nat.zero_le fuel⟩
  | case4 text hnil hclose hslash => cases h
  | case5 text c tail fuel hclose hslash hspaces hnospace => cases h
  | case6 text c tail fuel hclose hslash hspaces hspace ih =>
    simp only [bind_eq_ok_iff, Prod.exists] at h
    obtain ⟨name, data, between, hattribute, value, hvalue, attributes, empty, rest, hrest, h⟩ := h
    cases h
    rw [← hspaces] at hattribute
    obtain ⟨hbetween, hle⟩ := ih between hrest
    exact ⟨.cons (by simpa using hspace) hattribute hvalue hbetween, Nat.succ_le_succ hle⟩

theorem IsTagRest.scanTagRest_eq {attributes : List Attribute} {empty : Bool}
    (h : IsTagRest text attributes empty rest) {fuel : Nat} (hle : attributes.length ≤ fuel) :
    scanTagRest fuel text = .ok (attributes, empty, rest) := by
  induction h generalizing fuel with
  | close h =>
    unfold scanTagRest
    cases fuel with
    | zero =>
      rw [h]
      rfl
    | succ fuel =>
      rw [h]
      rfl
  | closeEmpty h =>
    unfold scanTagRest
    cases fuel with
    | zero =>
      rw [h]
      exact bind_eq_ok_iff.mpr ⟨_, expect_eq_ok_iff.mpr rfl, rfl⟩
    | succ fuel =>
      rw [h]
      exact bind_eq_ok_iff.mpr ⟨_, expect_eq_ok_iff.mpr rfl, rfl⟩
  | cons hspace hattribute hvalue hbetween ih =>
    cases fuel with
    | zero => exact absurd hle (Nat.not_succ_le_zero _)
    | succ fuel =>
      unfold scanTagRest
      -- An attribute begins here, so the tag does not end.
      split
      next hspaces => rw [hspaces] at hattribute; cases hattribute
      next hspaces =>
        rw [hspaces] at hattribute
        exact absurd (isNameChar_of_scanAttribute hattribute) (by decide)
      next hspaces =>
        rw [hspaces] at hattribute
        exact absurd (isNameChar_of_scanAttribute hattribute) (by decide)
      next hfuel _ _ _ => cases hfuel
      next hspaces hfuel =>
        cases hfuel
        rw [if_neg (by simp [hspace]), ← hspaces]
        have hrest := ih (Nat.le_of_succ_le_succ hle)
        exact bind_eq_ok_iff.mpr ⟨_, hattribute, bind_eq_ok_iff.mpr ⟨_, hvalue,
          bind_eq_ok_iff.mpr ⟨_, hrest, rfl⟩⟩⟩

/-- The fuel bounds the number of attributes and nothing else. -/
theorem scanTagRest_eq_ok_iff {fuel : Nat} {attributes : List Attribute} {empty : Bool} :
    scanTagRest fuel text = .ok (attributes, empty, rest) ↔
      IsTagRest text attributes empty rest ∧ attributes.length ≤ fuel :=
  ⟨isTagRest_of_scanTagRest, fun h => h.1.scanTagRest_eq h.2⟩

/-- The end of a tag is a mark, so nothing behind it changes the tag. -/
theorem IsTagRest.append {attributes : List Attribute} {empty : Bool}
    (h : IsTagRest text attributes empty rest) (more : List Char) :
    IsTagRest (text ++ more) attributes empty (rest ++ more) := by
  have hspaces (front : List Char) (hne : skipSpaces front ≠ []) :
      skipSpaces (front ++ more) = skipSpaces front ++ more := skipSpaces_append hne more
  induction h with
  | close h => exact .close (by rw [hspaces _ (by simp [h]), h, List.cons_append])
  | closeEmpty h =>
    exact .closeEmpty (by rw [hspaces _ (by simp [h]), h, List.cons_append, List.cons_append])
  | cons hspace hattribute hvalue hbetween ih =>
    have hfirst := IsTagRest.cons hspace hattribute hvalue hbetween
    refine .cons ?_ ?_ hvalue ih
    · rw [List.head?_append_of_ne_nil _ (ne_nil_of_skipSpaces hfirst.ne_nil)]
      exact hspace
    · rw [hspaces _ hfirst.ne_nil]
      exact scanAttribute_append hattribute more

theorem IsTagRest.length_lt {attributes : List Attribute} {empty : Bool}
    (h : IsTagRest text attributes empty rest) : attributes.length + rest.length < text.length := by
  induction h with
  | @close text rest h =>
    have hle := (skipSpaces_suffix text).length_le
    rw [h, List.length_cons] at hle
    rw [List.length_nil]
    omega
  | @closeEmpty text rest h =>
    have hle := (skipSpaces_suffix text).length_le
    rw [h, List.length_cons, List.length_cons] at hle
    rw [List.length_nil]
    omega
  | @cons text between rest name data value attributes empty hspace hattribute hvalue hbetween ih =>
    have hle := (skipSpaces_suffix text).length_le
    have hlt := (suffix_of_scanAttribute hattribute).2
    rw [List.length_cons]
    omega

/-! ## Tokens -/

def Token.attributeCount : Token → Nat
  | .startTag _ attributes _ => attributes.length
  | _ => 0

/-- The first token of a text, and what follows it. -/
inductive IsToken : List Char → Token → List Char → Prop where
  | comment {text body rest : List Char}
      (hbody : scanUntil "-->".toList text = .ok (body, "-->".toList ++ rest))
      (hdashes : holds "--" body = false) (hlast : body.getLast? ≠ some '-') :
      IsToken ('<' :: '!' :: '-' :: '-' :: text) .comment rest
  | characterSection {text data rest : List Char}
      (hdata : scanUntil "]]>".toList text = .ok (data, "]]>".toList ++ rest)) :
      IsToken ('<' :: '!' :: ("[CDATA[".toList ++ text)) (.characterSection data) rest
  | instruction {text word between body rest : List Char}
      (hdeclaration : "xml ".toList.isPrefixOf text = false)
      (hword : scanName text = .ok (word, between))
      (hbody : scanUntil "?>".toList (skipSpaces between) = .ok (body, "?>".toList ++ rest)) :
      IsToken ('<' :: '?' :: text) .instruction rest
  | endTag {text between rest : List Char} {name : QName}
      (hname : scanQName text = .ok (name, between)) (hclose : skipSpaces between = '>' :: rest) :
      IsToken ('<' :: '/' :: text) (.endTag name) rest
  | startTag {text between rest : List Char} {name : QName} {attributes : List Attribute}
      {empty : Bool} (hname : scanQName text = .ok (name, between))
      (hbetween : IsTagRest between attributes empty rest) :
      IsToken ('<' :: text) (.startTag name attributes empty) rest
  | text {text data rest : List Char} (hhead : text.head? ≠ some '<')
      (hdata : scanUntil ['<'] text = .ok (data, rest)) (hsection : holds "]]>" data = false) :
      IsToken text (.text data) rest

/-- A name does not begin with one of the marks that tell the other kinds of markup. -/
theorem scanToken_startTag {fuel : Nat} {name : QName} {between : List Char}
    (hname : scanQName text = .ok (name, between)) :
    scanToken fuel ('<' :: text) = scanStartTag fuel text := by
  cases text with
  | nil => rfl
  | cons c text =>
    have hmark (mark : Char) (h : isNameChar mark = false) : c ≠ mark := by
      rintro rfl
      rw [scanQName_cons_of_not h] at hname
      cases hname
    have h1 := hmark '!' (by decide)
    have h2 := hmark '?' (by decide)
    have h3 := hmark '/' (by decide)
    unfold scanToken
    split
    all_goals simp_all

theorem scanToken_text {fuel : Nat} (hhead : text.head? ≠ some '<') :
    scanToken fuel text = scanText text := by
  cases text with
  | nil => rfl
  | cons c text =>
    have hmark : c ≠ '<' := fun h => hhead (congrArg some h)
    unfold scanToken
    split
    all_goals simp_all

theorem isToken_of_scanToken {fuel : Nat} {token : Token}
    (h : scanToken fuel text = .ok (token, rest)) :
    IsToken text token rest ∧ token.attributeCount ≤ fuel := by
  revert h
  fun_cases scanToken fuel text with
  | case1 text =>
    unfold scanComment
    simp only [bind_eq_ok_iff, Prod.exists]
    rintro ⟨body, _, hbody, _, hend, h⟩
    rw [expect_eq_ok_iff.mp hend] at hbody
    split at h
    next => cases h
    next hdashes =>
      cases h
      simp only [Bool.or_eq_true, beq_iff_eq, not_or, Bool.not_eq_true] at hdashes
      exact ⟨.comment hbody hdashes.1 hdashes.2, Nat.zero_le fuel⟩
  | case2 text hdash hprefix =>
    unfold scanSection
    simp only [bind_eq_ok_iff, Prod.exists]
    rintro ⟨data, _, hdata, _, hend, h⟩
    rw [expect_eq_ok_iff.mp hend] at hdata
    cases h
    obtain ⟨after, rfl⟩ := List.isPrefixOf_iff_prefix.mp hprefix
    exact ⟨.characterSection hdata, Nat.zero_le fuel⟩
  | case3 => nofun
  | case4 => nofun
  | case5 text =>
    unfold scanInstruction
    intro h
    split at h
    next => cases h
    next hdeclaration =>
      simp only [bind_eq_ok_iff, Prod.exists] at h
      obtain ⟨word, between, hword, body, _, hbody, _, hend, h⟩ := h
      cases h
      rw [expect_eq_ok_iff.mp hend] at hbody
      exact ⟨.instruction (Bool.not_eq_true _ ▸ hdeclaration) hword hbody, Nat.zero_le fuel⟩
  | case6 text =>
    unfold scanEndTag
    simp only [bind_eq_ok_iff, Prod.exists]
    rintro ⟨name, between, hname, _, hend, h⟩
    cases h
    exact ⟨.endTag hname (expect_eq_ok_iff.mp hend), Nat.zero_le fuel⟩
  | case7 text h1 h2 h3 h4 =>
    unfold scanStartTag
    simp only [bind_eq_ok_iff, Prod.exists]
    rintro ⟨name, between, hname, attributes, empty, _, hbetween, h⟩
    cases h
    -- Only here is fuel used.
    obtain ⟨hbetween, hle⟩ := scanTagRest_eq_ok_iff.mp hbetween
    exact ⟨.startTag hname hbetween, hle⟩
  | case8 text h1 h2 h3 h4 hhead =>
    unfold scanText
    simp only [bind_eq_ok_iff, Prod.exists]
    rintro ⟨data, _, hdata, h⟩
    split at h
    next => cases h
    next hsection =>
      cases h
      refine ⟨.text ?_ hdata (Bool.not_eq_true _ ▸ hsection), Nat.zero_le fuel⟩
      intro hmark
      obtain ⟨after, rfl⟩ := List.head?_eq_some_iff.mp hmark
      exact hhead after rfl

theorem IsToken.scanToken_eq {token : Token} (h : IsToken text token rest) {fuel : Nat}
    (hle : token.attributeCount ≤ fuel) : scanToken fuel text = .ok (token, rest) := by
  cases h with
  | comment hbody hdashes hlast =>
    show scanComment _ = _
    refine bind_eq_ok_iff.mpr ⟨_, hbody, bind_eq_ok_iff.mpr ⟨rest, expect_eq_ok_iff.mpr rfl, ?_⟩⟩
    exact if_neg (by simp [hdashes, hlast])
  | characterSection hdata =>
    show scanSection _ = _
    exact bind_eq_ok_iff.mpr ⟨_, hdata, bind_eq_ok_iff.mpr ⟨rest, expect_eq_ok_iff.mpr rfl, rfl⟩⟩
  | instruction hdeclaration hword hbody =>
    show scanInstruction _ = _
    unfold scanInstruction
    rw [hdeclaration]
    refine bind_eq_ok_iff.mpr ⟨_, hword, bind_eq_ok_iff.mpr ⟨_, hbody, ?_⟩⟩
    exact bind_eq_ok_iff.mpr ⟨rest, expect_eq_ok_iff.mpr rfl, rfl⟩
  | endTag hname hclose =>
    show scanEndTag _ = _
    have hend : expect ">" _ = .ok rest := expect_eq_ok_iff.mpr hclose
    exact bind_eq_ok_iff.mpr ⟨_, hname, bind_eq_ok_iff.mpr ⟨rest, hend, rfl⟩⟩
  | startTag hname hbetween =>
    rw [scanToken_startTag hname]
    have hscan := scanTagRest_eq_ok_iff.mpr ⟨hbetween, hle⟩
    exact bind_eq_ok_iff.mpr ⟨_, hname, bind_eq_ok_iff.mpr ⟨_, hscan, rfl⟩⟩
  | text hhead hdata hsection =>
    rw [scanToken_text hhead]
    refine bind_eq_ok_iff.mpr ⟨_, hdata, ?_⟩
    exact if_neg (by simp [hsection])

/-- The fuel bounds the number of attributes of a tag and nothing else. -/
theorem scanToken_eq_ok_iff {fuel : Nat} {token : Token} :
    scanToken fuel text = .ok (token, rest) ↔
      IsToken text token rest ∧ token.attributeCount ≤ fuel :=
  ⟨isToken_of_scanToken, fun h => h.1.scanToken_eq h.2⟩

/-- What follows a token changes nothing about it, unless it is character data that goes on. -/
theorem IsToken.append {token : Token} (h : IsToken text token rest)
    (hclosed : rest = [] → ∀ data, token ≠ .text data) (more : List Char) :
    IsToken (text ++ more) token (rest ++ more) := by
  cases h with
  | comment hbody hdashes hlast =>
    exact .comment (scanUntil_append hbody (by simp) more) hdashes hlast
  | @characterSection text data rest hdata =>
    have hscan := IsToken.characterSection (scanUntil_append hdata (by simp) more)
    rwa [← List.append_assoc] at hscan
  | @instruction text word between body rest hdeclaration hword hbody =>
    have hbetween : skipSpaces between ≠ [] := by
      rw [eq_append_of_scanUntil hbody]
      simp
    have hmem : '?' ∈ text := by
      refine ((skipSpaces_suffix between).trans (suffix_of_scanName hword)).subset ?_
      rw [eq_append_of_scanUntil hbody]
      simp
    have hrest := scanUntil_append hbody (by simp) more
    rw [← skipSpaces_append hbetween] at hrest
    -- With its mark at the end in it, the text cannot go on to make a declaration of it.
    have hnone := (isPrefixOf_append_eq_of_mem hmem (by decide) more).trans hdeclaration
    exact .instruction hnone (scanName_append hword (ne_nil_of_skipSpaces hbetween) more) hrest
  | endTag hname hclose =>
    have hbetween := hclose ▸ List.cons_ne_nil '>' rest
    refine .endTag (scanQName_append hname (ne_nil_of_skipSpaces hbetween) more) ?_
    rw [skipSpaces_append hbetween, hclose, List.cons_append]
  | startTag hname hbetween =>
    have hne := ne_nil_of_skipSpaces hbetween.ne_nil
    exact .startTag (scanQName_append hname hne more) (hbetween.append more)
  | @text text data rest hhead hdata hsection =>
    have hne : rest ≠ [] := fun hnil => hclosed hnil data rfl
    have htext : text ≠ [] := by
      rw [eq_append_of_scanUntil hdata]
      exact List.append_ne_nil_of_right_ne_nil data hne
    refine .text ?_ (scanUntil_append hdata hne more) hsection
    rw [List.head?_append_of_ne_nil text htext]
    exact hhead

theorem IsToken.length_lt {token : Token} (h : IsToken text token rest) (hne : text ≠ []) :
    token.attributeCount + rest.length < text.length := by
  cases h with
  | comment hbody =>
    have hle := (suffix_of_scanUntil hbody).length_le
    simp only [Token.attributeCount, List.length_cons, List.length_append] at hle ⊢
    omega
  | characterSection hdata =>
    have hle := (suffix_of_scanUntil hdata).length_le
    simp only [Token.attributeCount, List.length_cons, List.length_append] at hle ⊢
    omega
  | instruction hdeclaration hword hbody =>
    have hle := (((suffix_of_scanUntil hbody).trans (skipSpaces_suffix _)).trans
      (suffix_of_scanName hword)).length_le
    simp only [Token.attributeCount, List.length_cons, List.length_append] at hle ⊢
    omega
  | endTag hname hclose =>
    have hle := ((skipSpaces_suffix _).trans (suffix_of_scanQName hname)).length_le
    rw [hclose] at hle
    simp only [Token.attributeCount, List.length_cons] at hle ⊢
    omega
  | startTag hname hbetween =>
    have hle := (suffix_of_scanQName hname).length_le
    have hlt := hbetween.length_lt
    simp only [Token.attributeCount, List.length_cons]
    omega
  | @text text data rest hhead hdata hsection =>
    have hsplit := eq_append_of_scanUntil hdata
    -- Data is not empty, because the text does not begin with the mark that ends it.
    have hdata' : data ≠ [] := by
      rintro rfl
      rw [List.nil_append] at hsplit
      rw [hsplit] at hne hhead
      obtain ⟨after, rfl⟩ := prefix_of_scanUntil hdata hne
      exact hhead rfl
    have hpos := List.length_pos_iff.mpr hdata'
    rw [hsplit, List.length_append]
    simp only [Token.attributeCount]
    omega

/-- One text has one first token: with fuel enough for both it is the one that is scanned. -/
theorem IsToken.unique {token other : Token} {after : List Char} (h : IsToken text token rest)
    (hother : IsToken text other after) : token = other ∧ rest = after := by
  have hfuel := Nat.le_max_left token.attributeCount other.attributeCount
  have hfuel' := Nat.le_max_right token.attributeCount other.attributeCount
  have hscan := scanToken_eq_ok_iff.mpr ⟨h, hfuel⟩
  rw [scanToken_eq_ok_iff.mpr ⟨hother, hfuel'⟩] at hscan
  cases hscan
  exact ⟨rfl, rfl⟩

/-- The tokens of a text. -/
inductive IsTokens : List Char → List Token → Prop where
  | nil : IsTokens [] []
  | cons {text rest : List Char} {token : Token} {later : List Token} (hne : text ≠ [])
      (htoken : IsToken text token rest) (hrest : IsTokens rest later) :
      IsTokens text (token :: later)

theorem isTokens_nil_iff {found : List Token} : IsTokens [] found ↔ found = [] := by
  refine ⟨fun h => ?_, fun h => h ▸ .nil⟩
  cases h with
  | nil => rfl
  | cons hne => exact absurd rfl hne

theorem IsTokens.exists_cons {found : List Token} (h : IsTokens text found) (hne : text ≠ []) :
    ∃ token rest later, found = token :: later ∧ IsToken text token rest ∧ IsTokens rest later := by
  cases h with
  | nil => exact absurd rfl hne
  | cons _ htoken hrest => exact ⟨_, _, _, rfl, htoken, hrest⟩

/-- The length of the text is fuel enough. -/
theorem scanTokens_eq_ok_iff {fuel : Nat} (hfuel : text.length ≤ fuel) {found : List Token} :
    scanTokens fuel text = .ok found ↔ IsTokens text found := by
  induction fuel generalizing text found with
  | zero =>
    obtain rfl := List.length_eq_zero_iff.mp (Nat.le_zero.mp hfuel)
    rw [scanTokens, isTokens_nil_iff, Except.ok.injEq, eq_comm]
  | succ fuel ih =>
    by_cases hne : text = []
    · subst hne
      rw [scanTokens, isTokens_nil_iff, Except.ok.injEq, eq_comm]
    · rw [scanTokens]
      swap
      · exact hne
      simp only [bind_eq_ok_iff, Prod.exists]
      -- A token leaves less of the text, so what is left of the fuel is enough for the rest.
      refine ⟨?_, fun h => ?_⟩
      · rintro ⟨token, rest, htoken, later, hlater, h⟩
        cases h
        obtain ⟨htoken, -⟩ := scanToken_eq_ok_iff.mp htoken
        have hlt := htoken.length_lt hne
        exact .cons hne htoken ((ih (by omega)).mp hlater)
      · obtain ⟨token, rest, later, rfl, htoken, hrest⟩ := h.exists_cons hne
        have hlt := htoken.length_lt hne
        refine ⟨token, rest, scanToken_eq_ok_iff.mpr ⟨htoken, by omega⟩, later, ?_, rfl⟩
        exact (ih (by omega)).mpr hrest

end FindingFilter.Xml
