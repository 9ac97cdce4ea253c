import FindingFilter.Proofs.Json.Spelling

/-!
# JSON — written values

A value is a run of tokens (`tokensOf`), and both written forms of a value spell this run with white
space of their own. The reader ignores the white space and puts the tokens together again, so both
forms are read back as the value.

* **`isReadBack_of_isWritable`** — the tokens of a value are put together to the value, whatever
  tokens follow;
* **`spells_compactChars`**, **`spells_prettyChars`** — what is printed spells the tokens of the
  value;
* **`ofText_compact`**, **`ofText_pretty`** — what is printed is read back;
* **`isUnbroken_compactChars`** — what is printed without white space stands on one line.

All of them ask for values whose numbers are decimal numerals and whose strings stand for texts
(`IsWritable`), which are the values that this program makes.
-/

namespace FindingFilter.Json

/-! ## The tokens of a value -/

mutual

/-- The tokens that a value is written in. -/
def tokensOf : Json → List Token
  | .null => [.null]
  | .bool value => [.bool value]
  | .number digits => [.number digits]
  | .string text => [.string text]
  | .array elements =>
    .openBracket :: ([Token.comma].intercalate (elementTokens elements) ++ [.closeBracket])
  | .object members =>
    .openBrace :: ([Token.comma].intercalate (memberTokens members) ++ [.closeBrace])

def elementTokens : List Json → List (List Token)
  | [] => []
  | value :: rest => tokensOf value :: elementTokens rest

def memberTokens : List (Option (List Char) × Json) → List (List Token)
  | [] => []
  | (name, value) :: rest => (.string name :: .colon :: tokensOf value) :: memberTokens rest

end

/-- The value is made of such parts as this program writes: numbers are decimal numerals, and strings
and names stand for texts. -/
inductive IsWritable : Json → Prop where
  | null : IsWritable .null
  | bool (value : Bool) : IsWritable (.bool value)
  | number (n : Nat) : IsWritable (.ofNat n)
  | string (text : String) : IsWritable (.ofString text)
  | array {elements : List Json} (h : ∀ value ∈ elements, IsWritable value) :
      IsWritable (.array elements)
  | object {members : List (Option (List Char) × Json)} (hnames : ∀ entry ∈ members, entry.1 ≠ none)
      (h : ∀ entry ∈ members, IsWritable entry.2) : IsWritable (.object members)

theorem isWritable_ofMembers {members : List (String × Json)}
    (h : ∀ entry ∈ members, IsWritable entry.2) : IsWritable (.ofMembers members) := by
  constructor
  · intro entry hmem
    obtain ⟨source, -, rfl⟩ := List.mem_map.mp hmem
    exact Option.some_ne_none _
  · intro entry hmem
    obtain ⟨source, hsource, rfl⟩ := List.mem_map.mp hmem
    exact h source hsource

theorem elementTokens_eq_map (elements : List Json) :
    elementTokens elements = elements.map tokensOf := by
  induction elements with
  | nil => rfl
  | cons value rest ih => rw [elementTokens, ih, List.map_cons]

theorem memberTokens_eq_map (members : List (Option (List Char) × Json)) :
    memberTokens members =
      members.map fun entry => .string entry.1 :: .colon :: tokensOf entry.2 := by
  induction members with
  | nil => rfl
  | cons entry rest ih => rw [memberTokens, ih, List.map_cons]

/-! ## Putting the tokens together -/

/-- The tokens of the value are put together to it, whatever follows them. -/
def IsReadBack (value : Json) : Prop :=
  ∀ fuel rest, (tokensOf value).length ≤ fuel →
    scanValue fuel (tokensOf value ++ rest) = .ok (value, rest)

theorem exists_cons_of_tokensOf (value : Json) :
    ∃ token more, tokensOf value = token :: more ∧ token ≠ .closeBracket := by
  cases value <;> exact ⟨_, _, rfl, by simp⟩

theorem scanElements_of_isReadBack {elements : List Json} (hne : elements ≠ [])
    (h : ∀ value ∈ elements, IsReadBack value) (fuel : Nat) (rest : List Token)
    (hfuel : ([Token.comma].intercalate (elements.map tokensOf)).length < fuel) :
    scanElements fuel ([Token.comma].intercalate (elements.map tokensOf) ++ .closeBracket :: rest) =
      .ok (elements, rest) := by
  induction elements generalizing fuel with
  | nil => exact absurd rfl hne
  | cons value others ih =>
    obtain ⟨hvalue, hothers⟩ := List.forall_mem_cons.mp h
    -- One unit of fuel goes with this element; the comma behind it is a token that needs none.
    obtain _ | fuel := fuel
    · omega
    cases others with
    | nil =>
      rw [List.map_singleton, List.intercalate_singleton] at hfuel ⊢
      simp only [scanElements, hvalue fuel _ (by omega), bind, Except.bind, pure, Except.pure]
    | cons other others =>
      have hrest := ih (List.cons_ne_nil _ _) hothers fuel
      rw [List.map_cons] at hrest
      rw [List.map_cons, List.map_cons, List.intercalate_cons_cons] at hfuel ⊢
      simp only [List.length_append, List.length_singleton] at hfuel
      simp only [List.append_assoc, List.cons_append, List.nil_append, scanElements,
        hvalue fuel _ (by omega), hrest (by omega), bind, Except.bind, pure, Except.pure]

theorem scanMembers_of_isReadBack {members : List (Option (List Char) × Json)} (hne : members ≠ [])
    (h : ∀ entry ∈ members, IsReadBack entry.2) (fuel : Nat) (rest : List Token)
    (hfuel : ([Token.comma].intercalate (memberTokens members)).length < fuel) :
    scanMembers fuel ([Token.comma].intercalate (memberTokens members) ++ .closeBrace :: rest) =
      .ok (members, rest) := by
  induction members generalizing fuel with
  | nil => exact absurd rfl hne
  | cons entry others ih =>
    obtain ⟨name, value⟩ := entry
    have hvalue : IsReadBack value := h (name, value) List.mem_cons_self
    have hothers : ∀ entry ∈ others, IsReadBack entry.2 := (List.forall_mem_cons.mp h).2
    obtain _ | fuel := fuel
    · omega
    cases others with
    | nil =>
      rw [memberTokens, memberTokens, List.intercalate_singleton] at hfuel ⊢
      simp only [List.length_cons] at hfuel
      simp only [List.cons_append, scanMembers, hvalue fuel _ (by omega), bind, Except.bind, pure,
        Except.pure]
    | cons other others =>
      have hrest := ih (List.cons_ne_nil _ _) hothers fuel
      rw [memberTokens] at hrest
      rw [memberTokens, memberTokens, List.intercalate_cons_cons] at hfuel ⊢
      simp only [List.length_append, List.length_cons, List.length_nil] at hfuel
      simp only [List.append_assoc, List.cons_append, List.nil_append, scanMembers,
        hvalue fuel _ (by omega), hrest (by omega), bind, Except.bind, pure, Except.pure]

theorem isReadBack_array {elements : List Json} (h : ∀ value ∈ elements, IsReadBack value) :
    IsReadBack (.array elements) := by
  intro fuel rest hfuel
  rw [tokensOf, elementTokens_eq_map] at hfuel ⊢
  cases elements with
  | nil =>
    rw [List.map_nil, List.intercalate_nil, List.nil_append, List.cons_append,
      List.singleton_append, scanValue]
  | cons value others =>
    obtain _ | fuel := fuel
    · simp at hfuel
    simp only [List.length_cons, List.length_append, List.length_nil] at hfuel
    have hread := scanElements_of_isReadBack (List.cons_ne_nil _ _) h fuel rest (by omega)
    rw [List.cons_append, List.append_assoc, List.singleton_append, scanValue, hread]
    · rfl
    · -- The array is not empty: no value begins with a closing bracket.
      obtain ⟨token, more, hvalue, hopen⟩ := exists_cons_of_tokensOf value
      intro after hclose
      cases others with
      | nil =>
        rw [List.map_singleton, List.intercalate_singleton, hvalue] at hclose
        exact hopen (List.cons.inj hclose).1
      | cons other others =>
        rw [List.map_cons, List.map_cons, List.intercalate_cons_cons, hvalue] at hclose
        exact hopen (List.cons.inj hclose).1

theorem isReadBack_object {members : List (Option (List Char) × Json)}
    (h : ∀ entry ∈ members, IsReadBack entry.2) : IsReadBack (.object members) := by
  intro fuel rest hfuel
  rw [tokensOf] at hfuel ⊢
  cases members with
  | nil =>
    rw [memberTokens, List.intercalate_nil, List.nil_append, List.cons_append,
      List.singleton_append, scanValue]
  | cons entry others =>
    obtain _ | fuel := fuel
    · simp at hfuel
    simp only [List.length_cons, List.length_append, List.length_nil] at hfuel
    have hread := scanMembers_of_isReadBack (List.cons_ne_nil _ _) h fuel rest (by omega)
    rw [List.cons_append, List.append_assoc, List.singleton_append, scanValue, hread]
    · rfl
    · -- The object is not empty: it begins with a name.
      intro after hclose
      cases others with
      | nil => simp [memberTokens] at hclose
      | cons other others => simp [memberTokens] at hclose

/-- **The tokens of a value are put together to the value.** -/
theorem isReadBack_of_isWritable {value : Json} (h : IsWritable value) : IsReadBack value := by
  induction h with
  | null =>
    intro fuel rest hfuel
    rw [tokensOf, List.singleton_append, scanValue]
  | bool value =>
    intro fuel rest hfuel
    rw [tokensOf, List.singleton_append, scanValue]
  | number n =>
    intro fuel rest hfuel
    rw [ofNat, tokensOf, List.singleton_append, scanValue]
  | string text =>
    intro fuel rest hfuel
    rw [ofString, tokensOf, List.singleton_append, scanValue]
  | array h ih => exact isReadBack_array ih
  | object hnames h ih => exact isReadBack_object ih

/-! ## Spelling the tokens -/

/-- The text spells the tokens, whatever is spelled behind it. -/
def Spells (text : List Char) (spelled : List Token) : Prop :=
  ∀ ⦃rest : List Char⦄ ⦃more : List Token⦄, EndsNumber rest → IsSpelled more rest →
    IsSpelled (spelled ++ more) (text ++ rest)

def IsGap (gap : List Char) : Prop := ∀ c ∈ gap, isSpace c = true

/-- The token is a brace, a bracket, a comma or a colon. -/
inductive IsMark : Token → Prop where
  | openBrace : IsMark .openBrace
  | closeBrace : IsMark .closeBrace
  | openBracket : IsMark .openBracket
  | closeBracket : IsMark .closeBracket
  | comma : IsMark .comma
  | colon : IsMark .colon

theorem isGap_nil : IsGap [] := by simp [IsGap]

theorem isSpelled_gap_append {gap text : List Char} {spelled : List Token} (hgap : IsGap gap)
    (h : IsSpelled spelled text) : IsSpelled spelled (gap ++ text) := by
  induction gap with
  | nil => exact h
  | cons c gap ih =>
    obtain ⟨hspace, hrest⟩ := List.forall_mem_cons.mp hgap
    exact .space hspace (ih hrest)

theorem endsNumber_gap_append {gap text : List Char} (hgap : IsGap gap) (h : EndsNumber text) :
    EndsNumber (gap ++ text) := by
  cases gap with
  | nil => exact h
  | cons c gap =>
    have hspace : isSpace c = true := hgap c List.mem_cons_self
    simp only [isSpace, Bool.or_eq_true, beq_iff_eq] at hspace
    rcases hspace with ((rfl | rfl) | rfl) | rfl <;>
      exact ⟨by decide, by decide, by decide, by decide⟩

theorem isSpelled_mark {mark : Token} (hmark : IsMark mark) {text : List Char}
    {spelled : List Token} (h : IsSpelled spelled text) :
    IsSpelled (mark :: spelled) (lexeme mark ++ text) := by
  cases hmark <;> exact .token trivial trivial h

theorem endsNumber_mark {mark : Token} (hmark : IsMark mark) (rest : List Char) :
    EndsNumber (lexeme mark ++ rest) := by
  cases hmark <;> exact ⟨by decide, by decide, by decide, by decide⟩

theorem spells_lexeme (token : Token) (hplain : IsPlain token) :
    Spells (lexeme token) [token] := by
  intro rest more hend hmore
  refine .token hplain ?_ hmore
  cases token with
  | number digits => exact hend
  | _ => trivial

section Container

variable {α : Type} {entries : List α} {write : α → List Char} {spelling : α → List Token}
  {gap last : List Char}

theorem spells_intercalate (hgap : IsGap gap)
    (h : ∀ entry ∈ entries, Spells (write entry) (spelling entry)) :
    Spells ((',' :: gap).intercalate (entries.map write))
      ([Token.comma].intercalate (entries.map spelling)) := by
  induction entries with
  | nil =>
    intro rest more hend hmore
    exact hmore
  | cons entry others ih =>
    obtain ⟨hentry, hothers⟩ := List.forall_mem_cons.mp h
    cases others with
    | nil => simpa using hentry
    | cons other others =>
      intro rest more hend hmore
      -- From behind: the other entries, the white space, the comma, which ends a number, the entry.
      have hrest := isSpelled_gap_append hgap (ih hothers hend hmore)
      have hall := hentry (endsNumber_mark .comma _) (isSpelled_mark .comma hrest)
      simpa [List.intercalate_cons_cons, lexeme] using hall

/-- A container is written as its entries with commas between them, in brackets of some kind. There
may be white space behind each comma, and within the brackets. -/
theorem spells_container {opening closing : Token} (hopening : IsMark opening)
    (hclosing : IsMark closing) (hgap : IsGap gap) (hlast : IsGap last)
    (h : ∀ entry ∈ entries, Spells (write entry) (spelling entry)) :
    Spells (lexeme opening ++ (gap ++ (',' :: gap).intercalate (entries.map write) ++ last
        ++ lexeme closing))
      (opening :: ([Token.comma].intercalate (entries.map spelling) ++ [closing])) := by
  intro rest more hend hmore
  have hclose : IsSpelled (closing :: more) (last ++ (lexeme closing ++ rest)) :=
    isSpelled_gap_append hlast (isSpelled_mark hclosing hmore)
  have hentries := spells_intercalate hgap h
    (endsNumber_gap_append hlast (endsNumber_mark hclosing rest)) hclose
  have hall := isSpelled_mark hopening (isSpelled_gap_append hgap hentries)
  simpa using hall

end Container

theorem spells_member {name : Option (List Char)} (hname : name ≠ none) {text gap : List Char}
    {spelled : List Token} (hgap : IsGap gap) (h : Spells text spelled) :
    Spells (quoteOption name ++ ':' :: (gap ++ text)) (.string name :: .colon :: spelled) := by
  intro rest more hend hmore
  have hvalue := isSpelled_mark .colon (isSpelled_gap_append hgap (h hend hmore))
  have hall := spells_lexeme (.string name) hname (endsNumber_mark .colon _) hvalue
  simpa [lexeme] using hall

/-! ## The two printed forms -/

theorem joined_eq_intercalate (separator : List Char) (entries : List (List Char)) :
    joined separator entries = separator.intercalate entries := by
  induction entries with
  | nil => rfl
  | cons entry others ih =>
    cases others with
    | nil => rw [joined, List.intercalate_singleton]
    | cons other others =>
      rw [joined, ih, List.intercalate_cons_cons]
      exact List.cons_ne_nil other others

theorem compactElements_eq_map (elements : List Json) :
    compactElements elements = elements.map compactChars := by
  induction elements with
  | nil => rfl
  | cons value rest ih => rw [compactElements, ih, List.map_cons]

theorem compactMembers_eq_map (members : List (Option (List Char) × Json)) :
    compactMembers members =
      members.map fun entry => quoteOption entry.1 ++ ':' :: compactChars entry.2 := by
  induction members with
  | nil => rfl
  | cons entry rest ih => rw [compactMembers, ih, List.map_cons]

theorem prettyElements_eq_map (depth : Nat) (elements : List Json) :
    prettyElements depth elements = elements.map (prettyChars depth) := by
  induction elements with
  | nil => rfl
  | cons value rest ih => rw [prettyElements, ih, List.map_cons]

theorem prettyMembers_eq_map (depth : Nat) (members : List (Option (List Char) × Json)) :
    prettyMembers depth members =
      members.map fun entry => quoteOption entry.1 ++ ':' :: ' ' :: prettyChars depth entry.2 := by
  induction members with
  | nil => rfl
  | cons entry rest ih => rw [prettyMembers, ih, List.map_cons]

theorem isGap_newLine (depth : Nat) : IsGap (newLine depth) := by
  intro c hmem
  rw [newLine, List.mem_cons, List.mem_replicate] at hmem
  rcases hmem with rfl | ⟨-, rfl⟩ <;> decide

/-- **What is printed without white space spells the tokens of the value.** -/
theorem spells_compactChars {value : Json} (h : IsWritable value) :
    Spells (compactChars value) (tokensOf value) := by
  induction h with
  | null => exact spells_lexeme .null trivial
  | bool value =>
    cases value with
    | false => exact spells_lexeme (.bool false) trivial
    | true => exact spells_lexeme (.bool true) trivial
  | number n => exact spells_lexeme (.number _) ⟨n, rfl⟩
  | string text => exact spells_lexeme (.string (some text.toList)) (by simp [IsPlain])
  | @array elements h ih =>
    rw [compactChars, joined_eq_intercalate, compactElements_eq_map, tokensOf, elementTokens_eq_map]
    have hall := spells_container .openBracket .closeBracket isGap_nil isGap_nil ih
    simpa [lexeme] using hall
  | @object members hnames h ih =>
    rw [compactChars, joined_eq_intercalate, compactMembers_eq_map, tokensOf, memberTokens_eq_map]
    have hall := spells_container .openBrace .closeBrace isGap_nil isGap_nil fun entry hmem =>
      spells_member (hnames entry hmem) isGap_nil (ih entry hmem)
    simpa [lexeme] using hall

/-- As `spells_container`, with every entry on a line of its own. -/
theorem spells_bracketed {α : Type} {entries : List α} {write : α → List Char}
    {spelling : α → List Token} {opening closing : Token} (hopening : IsMark opening)
    (hclosing : IsMark closing) {first last : Char} (hfirst : lexeme opening = [first])
    (hlast : lexeme closing = [last]) (depth : Nat)
    (h : ∀ entry ∈ entries, Spells (write entry) (spelling entry)) :
    Spells (bracketed first last depth (entries.map write))
      (opening :: ([Token.comma].intercalate (entries.map spelling) ++ [closing])) := by
  cases entries with
  | nil =>
    have hall := spells_container hopening hclosing isGap_nil isGap_nil h
    simpa [bracketed, hfirst, hlast] using hall
  | cons entry others =>
    have hall := spells_container hopening hclosing (isGap_newLine (depth + 1))
      (isGap_newLine depth) h
    rw [hfirst, hlast] at hall
    rw [bracketed, joined_eq_intercalate]
    exact hall

/-- **What is printed over several lines spells the tokens of the value**, at whatever depth. -/
theorem spells_prettyChars {value : Json} (h : IsWritable value) (depth : Nat) :
    Spells (prettyChars depth value) (tokensOf value) := by
  have hblank : IsGap [' '] := by simp [IsGap, isSpace]
  induction h generalizing depth with
  | null => exact spells_lexeme .null trivial
  | bool value =>
    cases value with
    | false => exact spells_lexeme (.bool false) trivial
    | true => exact spells_lexeme (.bool true) trivial
  | number n => exact spells_lexeme (.number _) ⟨n, rfl⟩
  | string text => exact spells_lexeme (.string (some text.toList)) (by simp [IsPlain])
  | @array elements h ih =>
    rw [prettyChars, prettyElements_eq_map, tokensOf, elementTokens_eq_map]
    exact spells_bracketed .openBracket .closeBracket rfl rfl depth fun value hmem =>
      ih value hmem (depth + 1)
  | @object members hnames h ih =>
    rw [prettyChars, prettyMembers_eq_map, tokensOf, memberTokens_eq_map]
    exact spells_bracketed .openBrace .closeBrace rfl rfl depth fun entry hmem =>
      spells_member (hnames entry hmem) hblank (ih entry hmem (depth + 1))

/-! ## Printed values are read back -/

/-- A text that spells the tokens of a value is read as the value, also with white space behind. -/
theorem ofText_of_spells {value : Json} (hvalue : IsWritable value) {text gap : List Char}
    (h : Spells text (tokensOf value)) (hgap : IsGap gap) :
    ofText (String.ofList (text ++ gap)) = .ok value := by
  have hspelled : IsSpelled (tokensOf value) (text ++ gap) := by
    have hnil : IsSpelled [] gap := by simpa using isSpelled_gap_append hgap .nil
    have hend : EndsNumber (gap ++ []) := endsNumber_gap_append hgap trivial
    rw [List.append_nil] at hend
    simpa using h hend hnil
  have hread := isReadBack_of_isWritable hvalue (2 * (tokensOf value).length) [] (by omega)
  rw [List.append_nil] at hread
  rw [ofText, String.toList_ofList, tokens_of_isSpelled hspelled]
  simp only [ofTokens, hread, bind, Except.bind, pure, Except.pure]
  rfl

/-- **What is printed without white space is read back.** -/
theorem ofText_compact {value : Json} (h : IsWritable value) : ofText value.compact = .ok value := by
  have hread := ofText_of_spells h (spells_compactChars h) isGap_nil
  rwa [List.append_nil] at hread

/-- **What is printed over several lines is read back**, with or without a line feed behind it. -/
theorem ofText_pretty {value : Json} (h : IsWritable value) :
    ofText value.pretty = .ok value ∧ ofText (value.pretty ++ "\n") = .ok value := by
  have hread {gap : List Char} (hgap : IsGap gap) :
      ofText (String.ofList (prettyChars 0 value ++ gap)) = .ok value :=
    ofText_of_spells h (spells_prettyChars h 0) hgap
  constructor
  · have hform := hread isGap_nil
    rwa [List.append_nil] at hform
  · have hline : IsGap ['\n'] := by simp [IsGap, isSpace]
    have hform := hread hline
    rwa [String.ofList_append] at hform

/-! ## No line breaks -/

/-- A line break in a string is written as an escape, and no escape holds one. -/
theorem isUnbroken_escape (c : Char) : Text.IsUnbroken (escape c) := by
  rcases escape_cases c with ⟨letter, hform, -, hletter⟩ | ⟨hcontrol, hform⟩ | ⟨hform, -, -, hplain⟩
  · have hbreak : Text.isLineBreak letter = false :=
      Text.isLineBreak_of_ne (by rintro rfl; cases hletter) (by rintro rfl; cases hletter)
    rw [hform]
    exact .cons (by decide) (.cons hbreak (by simp [Text.IsUnbroken]))
  · have hdigit : ∀ n < 16, Text.isLineBreak (hexDigit n) = false := by decide
    have hfront : Text.IsUnbroken ['\\', 'u', '0', '0'] := by decide
    rw [hform]
    exact hfront.append (.cons (hdigit _ (by omega)) (.cons (hdigit _ (by omega)) (by decide)))
  · have hbreak : Text.isLineBreak c = false :=
      Text.isLineBreak_of_ne (by rintro rfl; exact hplain (by decide))
        (by rintro rfl; exact hplain (by decide))
    rw [hform]
    exact .cons hbreak (by decide)

theorem isUnbroken_quoteOption (text : Option (List Char)) :
    Text.IsUnbroken (quoteOption text) := by
  have hchars : Text.IsUnbroken ((text.getD []).flatMap escape) := by
    intro c hmem
    obtain ⟨d, -, hc⟩ := List.mem_flatMap.mp hmem
    exact isUnbroken_escape d c hc
  exact .cons (by decide) (hchars.append (by decide))

theorem isUnbroken_joined {separator : List Char} (hseparator : Text.IsUnbroken separator)
    {entries : List (List Char)} (h : ∀ entry ∈ entries, Text.IsUnbroken entry) :
    Text.IsUnbroken (joined separator entries) := by
  induction entries with
  | nil => exact fun c hmem => absurd hmem List.not_mem_nil
  | cons entry others ih =>
    obtain ⟨hentry, hothers⟩ := List.forall_mem_cons.mp h
    cases others with
    | nil => exact hentry
    | cons other others =>
      exact (hentry.append hseparator).append (ih hothers)

/-- **What is printed without white space has no line breaks**, whatever texts are in it. -/
theorem isUnbroken_compactChars {value : Json} (h : IsWritable value) :
    Text.IsUnbroken (compactChars value) := by
  induction h with
  | null => decide
  | bool value => cases value <;> decide
  | number n => exact Text.isUnbroken_toString n
  | string text => exact isUnbroken_quoteOption _
  | @array elements h ih =>
    rw [compactChars, compactElements_eq_map]
    have hcomma : Text.IsUnbroken [','] := by decide
    have hjoined := isUnbroken_joined hcomma (List.forall_mem_map.mpr ih)
    exact .cons (by decide) (hjoined.append (by decide))
  | @object members hnames h ih =>
    rw [compactChars, compactMembers_eq_map]
    have hcomma : Text.IsUnbroken [','] := by decide
    have hmembers : ∀ entry ∈ members,
        Text.IsUnbroken (quoteOption entry.1 ++ ':' :: compactChars entry.2) := fun entry hmem =>
      (isUnbroken_quoteOption _).append (.cons (by decide) (ih entry hmem))
    have hjoined := isUnbroken_joined hcomma (List.forall_mem_map.mpr hmembers)
    exact .cons (by decide) (hjoined.append (by decide))

end FindingFilter.Json
