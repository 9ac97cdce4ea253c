import FindingFilter.Proofs.Rule.Markup
import FindingFilter.Proofs.Xml.CommentedTree

/-!
# Rules — comments in the elements of a rule

The content of a constraint is the first text in its element, and only if nothing stands in front
of that text. So a comment changes no rule, wherever it stands, with one exception (`IsCutShort`):
it stands in the element of a constraint that counts, and what is in front of it there does not say
the same as the whole. Such a comment hides what is behind it. If nothing is in front of it, the
constraint is left open.
-/

namespace FindingFilter.Rule

open Xml

/-- The text that an element with these children begins with; the empty text if it begins with
something else. -/
def leadingText : List Node → String
  | .text content :: _ => content
  | _ => ""

/-- The two contents set different constraints under a name. Under other names nothing is set. -/
def SetsOther (label content other : String) : Prop :=
  if label = "lineNumber" then Text.lineNumber content.toList ≠ Text.lineNumber other.toList
  else label ∈ constraintNames ∧ content ≠ other

/-- The other document has a comment where it cuts a constraint short: below a rule, in the last
element of this name, and what the element begins with in front of the comment sets another
constraint than what it began with. -/
inductive IsCutShort : Node → Node → Prop where
  | intro (root name field : QName) (above below front back : List Node)
      {left right children : List Node} (hrule : name.label = "suppress")
      (hlast : ∀ node ∈ back, node.isElementNamed field.label = false)
      (hjoined : IsJoined left right children)
      (hlost : SetsOther field.label (leadingText left) (leadingText children)) :
      IsCutShort
        (.element root (above ++ .element name
          (front ++ .element field children :: back) :: below))
        (.element root (above ++ .element name
          (front ++ .element field (left ++ .comment :: right) :: back) :: below))

variable {left right children : List Node}

/-! ## What is read where a comment stands -/

/-- The elements are the same, in the same order. -/
theorem filter_isElementNamed_of_isJoined (h : IsJoined left right children) (label : String) :
    (left ++ .comment :: right).filter (Node.isElementNamed label) =
      children.filter (Node.isElementNamed label) := by
  have hcomment : ¬ Node.isElementNamed label .comment = true := nofun
  have htext (content : String) : ¬ Node.isElementNamed label (.text content) = true := nofun
  rw [List.filter_append, List.filter_cons_of_neg hcomment]
  cases h with
  | apart => rw [List.filter_append]
  | within left right h =>
    simp only [List.filter_append, List.filter_cons_of_neg (htext _), List.filter_nil,
      List.append_nil]

/-- Only what is in front of the comment is read. -/
theorem text?_comment (name : QName) (left right : List Node) :
    (Node.element name (left ++ .comment :: right)).text? = (Node.element name left).text? := by
  cases left with
  | nil => rfl
  | cons node left => cases node <;> rfl

/-- The rule that an element alone would set. -/
def ofField (field : QName) (children : List Node) : Rule :=
  withField { id := "" } (.element field children)

theorem ofField_comment (field : QName) (left right : List Node) :
    ofField field (left ++ .comment :: right) = ofField field left := by
  unfold ofField
  rw [withField_eq, withField_eq, text?_comment]
  rfl

/-- A comment deeper inside is not in the way of the text. -/
theorem text?_deeper (name : QName) (before after : List Node) {node other : Node}
    (h : IsCommented node other) :
    (Node.element name (before ++ other :: after)).text? =
      (Node.element name (before ++ node :: after)).text? := by
  obtain ⟨label, inner, others, rfl, rfl⟩ := h.exists_elements
  cases before with
  | nil => rfl
  | cons node before => cases node <;> rfl

theorem ofField_deeper (field : QName) (before after : List Node) {node other : Node}
    (h : IsCommented node other) :
    ofField field (before ++ other :: after) = ofField field (before ++ node :: after) := by
  unfold ofField
  rw [withField_eq, withField_eq, text?_deeper field before after h]
  rfl

theorem ite_eq_ite_iff {α : Type} {p : Prop} [Decidable p] {a b c : α} :
    (if p then a else c) = (if p then b else c) ↔ (p → a = b) := by
  by_cases hp : p
  · simp only [hp, if_true, true_imp_iff]
  · simp only [hp, if_false, false_imp_iff]

theorem text?_getD (name : QName) (children : List Node) :
    (Node.element name children).text?.getD "" = leadingText children := by
  cases children with
  | nil => rfl
  | cons node children => cases node <;> rfl

theorem ofField_eq_iff {field : QName} :
    ofField field left = ofField field children ↔
      ¬ SetsOther field.label (leadingText left) (leadingText children) := by
  unfold ofField SetsOther
  rw [withField_eq, withField_eq]
  simp only [Node.isElementNamed, beq_iff_eq, text?_getD, Rule.mk.injEq, ite_eq_ite_iff]
  by_cases hline : field.label = "lineNumber"
  · simp [hline]
  · simp [hline, constraintNames, or_imp]

/-! ## The constraint that counts -/

/-- Under one name an element with another name does not count. -/
theorem contentOf_of_ne {field : QName} {label : String} (hlabel : field.label ≠ label)
    (front back children : List Node) :
    contentOf label (front ++ .element field children :: back) =
      contentOf label (front ++ back) := by
  apply contentOf_congr
  have hskip : ¬ (Node.element field children).isElementNamed label = true :=
    mt beq_iff_eq.mp hlabel
  rw [List.filter_append, List.filter_append, List.filter_cons_of_neg hskip]

theorem contentOf_field {field : QName} {front back : List Node}
    (hlast : ∀ node ∈ back, node.isElementNamed field.label = false) (children : List Node)
    (label : String) :
    contentOf label (front ++ .element field children :: back) =
      if field.label = label then (Node.element field children).text?.getD ""
      else contentOf label (front ++ back) := by
  split
  next hlabel =>
    subst hlabel
    exact contentOf_append_cons (beq_self_eq_true field.label) hlast
  next hlabel => exact contentOf_of_ne hlabel front back children

/-- The rule changes with the last element of a name exactly if this element alone says something
else. -/
theorem ofElement_field_iff {name field : QName} {front back : List Node}
    (hlast : ∀ node ∈ back, node.isElementNamed field.label = false) (others : List Node) :
    ofElement (.element name (front ++ .element field others :: back)) =
        ofElement (.element name (front ++ .element field children :: back)) ↔
      ofField field others = ofField field children := by
  unfold ofField
  rw [ofElement_eq, ofElement_eq, withField_eq, withField_eq]
  simp only [Node.children, contentOf_field hlast, Node.isElementNamed, beq_iff_eq, Rule.mk.injEq,
    apply_ite String.toList, apply_ite Text.lineNumber, ite_eq_ite_iff]

theorem contentOf_append_of_mem {label : String} {back : List Node}
    (h : ∃ node ∈ back, node.isElementNamed label = true) (front : List Node) :
    contentOf label (front ++ back) = contentOf label back := by
  obtain ⟨node, hmem, hnode⟩ := h
  have hne : back.filter (Node.isElementNamed label) ≠ [] :=
    List.ne_nil_of_mem (List.mem_filter.mpr ⟨hmem, hnode⟩)
  unfold contentOf
  rw [List.filter_append, List.getLast?_append_of_ne_nil _ hne]

/-- An element in front of one with the same name does not count. -/
theorem ofElement_hidden {name field : QName} {front back : List Node}
    (hlater : ∃ node ∈ back, node.isElementNamed field.label = true) (others : List Node) :
    ofElement (.element name (front ++ .element field others :: back)) =
      ofElement (.element name (front ++ .element field children :: back)) := by
  apply ofElement_congr
  intro label _
  show contentOf label (front ++ .element field others :: back) =
    contentOf label (front ++ .element field children :: back)
  by_cases hlabel : field.label = label
  · subst hlabel
    rw [List.append_cons, contentOf_append_of_mem hlater, List.append_cons,
      contentOf_append_of_mem hlater]
  · rw [contentOf_of_ne hlabel, contentOf_of_ne hlabel]

/-! ## The rules of a document -/

/-- Elements with the same children, apart from texts and comments, say the same rule. -/
theorem ofElement_comment (name : QName) (h : IsJoined left right children) :
    ofElement (.element name (left ++ .comment :: right)) = ofElement (.element name children) :=
  ofElement_congr fun label _ => contentOf_congr (filter_isElementNamed_of_isJoined h label)

/-- The rules of a document change with a child of the root exactly if the rule of the child does.
-/
theorem ofDocument_child_iff {root name : QName} {above below others : List Node} :
    ofDocument (.element root (above ++ .element name others :: below)) =
        ofDocument (.element root (above ++ .element name children :: below)) ↔
      (name.label = "suppress" →
        ofElement (.element name others) = ofElement (.element name children)) := by
  unfold ofDocument
  simp only [Node.children, List.filter_append]
  by_cases hname : name.label = "suppress"
  · have hrule (nodes : List Node) : (Node.element name nodes).isElementNamed "suppress" = true :=
      beq_iff_eq.mpr hname
    simp [List.filter_cons_of_pos (hrule _), hname]
  · have hskip (nodes : List Node) : ¬ (Node.element name nodes).isElementNamed "suppress" = true :=
      mt beq_iff_eq.mp hname
    simp [List.filter_cons_of_neg (hskip _), hname]

/-- **A comment changes no rule unless it cuts a constraint short.** -/
theorem ofDocument_of_isCommented {root other : Node} (h : IsCommented root other)
    (hwhole : ¬ IsCutShort root other) : ofDocument other = ofDocument root := by
  cases h with
  | here root h =>
    -- Between the rules.
    unfold ofDocument
    exact congrArg _ (filter_isElementNamed_of_isJoined h "suppress")
  | deeper root above below h =>
    obtain ⟨name, children, others, rfl, rfl⟩ := h.exists_elements
    rw [ofDocument_child_iff]
    intro hname
    cases h with
    -- Between the constraints of a rule.
    | here _ h => exact ofElement_comment name h
    | deeper _ front back h =>
      obtain ⟨field, children, others, rfl, rfl⟩ := h.exists_elements
      by_cases hlater : ∃ node ∈ back, node.isElementNamed field.label = true
      · exact ofElement_hidden hlater others
      · have hlast : ∀ node ∈ back, node.isElementNamed field.label = false := by
          intro node hmem
          exact Bool.eq_false_iff.mpr fun hnode => hlater ⟨node, hmem, hnode⟩
        rw [ofElement_field_iff hlast]
        cases h with
        | @here _ left right _ h =>
          -- In the content of a constraint that counts.
          rw [ofField_comment, ofField_eq_iff]
          intro hlost
          exact hwhole (.intro root name field above below front back hname hlast h hlost)
        | deeper _ before after h => exact ofField_deeper field before after h

theorem ofDocument_ne_of_isCutShort {root other : Node} (h : IsCutShort root other) :
    ofDocument other ≠ ofDocument root := by
  cases h with
  | intro root name field above below front back hrule hlast hjoined hlost =>
    rw [Ne, ofDocument_child_iff]
    intro hsame
    have hfield := (ofElement_field_iff hlast _).mp (hsame hrule)
    rw [ofField_comment, ofField_eq_iff] at hfield
    exact hfield hlost

theorem ofXml_eq_ok_iff {document : String} {rules : List Rule} :
    ofXml document = .ok rules ↔ ∃ root, rootOf document = .ok root ∧ ofDocument root = rules := by
  unfold ofXml
  cases rootOf document with
  | error cause => simp [Except.map]
  | ok root => simp [Except.map]

/-- **What a comment changes.** A document that is read is read as well with a comment put into it,
at every place that may precede one: behind a tag or any other token, and inside character data. The
rules stay the same if and only if the comment does not cut a constraint short. -/
theorem ofXml_comment_iff {before comment after : String} {rules : List Rule}
    (hbefore : MayPrecedeComment before) (hcomment : IsComment comment.toList)
    (h : ofXml (before ++ after) = .ok rules) :
    ∃ root other, rootOf (before ++ after) = .ok root ∧
      rootOf (before ++ comment ++ after) = .ok other ∧ Relation.ReflGen IsCommented root other ∧
      (ofXml (before ++ comment ++ after) = .ok rules ↔ ¬ IsCutShort root other) := by
  obtain ⟨root, hroot, rfl⟩ := ofXml_eq_ok_iff.mp h
  obtain ⟨other, hother, hcommented⟩ := rootOf_comment hbefore hcomment hroot
  refine ⟨root, other, hroot, hother, hcommented, ?_, ?_⟩
  · intro hsame hcut
    obtain ⟨_, hread, hrules⟩ := ofXml_eq_ok_iff.mp hsame
    rw [hother] at hread
    cases hread
    exact ofDocument_ne_of_isCutShort hcut hrules
  · intro hwhole
    refine ofXml_eq_ok_iff.mpr ⟨other, hother, ?_⟩
    cases hcommented with
    | refl => rfl
    | single hcommented => exact ofDocument_of_isCommented hcommented hwhole

/-- A comment in the middle of a file name: the rest of the name is not read. -/
theorem ofXml_comment_iff_file :
    MayPrecedeComment "<s><suppress><id>a</id><fileName>src/" ∧ IsComment "<!-- c -->".toList ∧
      ofXml ("<s><suppress><id>a</id><fileName>src/" ++ "a.c</fileName></suppress></s>") =
        .ok [{ id := "a", file := "src/a.c" }] ∧
      ∃ root other,
        rootOf ("<s><suppress><id>a</id><fileName>src/" ++ "<!-- c -->" ++
          "a.c</fileName></suppress></s>") = .ok other ∧
        IsCutShort root other ∧ ofDocument other = [{ id := "a", file := "src/" }] := by
  have hbefore : MayPrecedeComment "<s><suppress><id>a</id><fileName>src/" :=
    ⟨_, _, rfl, nofun, rfl⟩
  have hcomment : IsComment "<!-- c -->".toList :=
    .intro (.char (by decide) (by decide) (.char (by decide) (by decide)
      (.char (by decide) (by decide) .nil)))
  have hread : ofXml ("<s><suppress><id>a</id><fileName>src/" ++
      "a.c</fileName></suppress></s>") = .ok [{ id := "a", file := "src/a.c" }] := rfl
  have hcut : ofXml ("<s><suppress><id>a</id><fileName>src/" ++ "<!-- c -->" ++
      "a.c</fileName></suppress></s>") = .ok [{ id := "a", file := "src/" }] := rfl
  obtain ⟨root, other, -, hother, -, hiff⟩ := ofXml_comment_iff hbefore hcomment hread
  refine ⟨hbefore, hcomment, hread, root, other, hother, ?_, ?_⟩
  · by_contra hwhole
    have hsame := hcut.symm.trans (hiff.mpr hwhole)
    exact absurd (Except.ok.inj hsame) (by decide)
  · obtain ⟨_, hagain, hrules⟩ := ofXml_eq_ok_iff.mp hcut
    rw [hother] at hagain
    cases hagain
    exact hrules

/-- A comment in front of a file name: the rule is about every file. -/
theorem ofXml_comment_in_front :
    MayPrecedeComment "<s><suppress><id>a</id><fileName>" ∧ IsComment "<!-- c -->".toList ∧
      ofXml ("<s><suppress><id>a</id><fileName>" ++ "src/a.c</fileName></suppress></s>") =
        .ok [{ id := "a", file := "src/a.c" }] ∧
      ofXml ("<s><suppress><id>a</id><fileName>" ++ "<!-- c -->" ++
          "src/a.c</fileName></suppress></s>") = .ok [{ id := "a", file := "" }] := by
  refine ⟨⟨_, _, rfl, nofun, rfl⟩, ?_, rfl, rfl⟩
  exact .intro (.char (by decide) (by decide) (.char (by decide) (by decide)
    (.char (by decide) (by decide) .nil)))

end FindingFilter.Rule
