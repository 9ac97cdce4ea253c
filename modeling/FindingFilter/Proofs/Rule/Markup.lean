import FindingFilter.Rule.Markup
import Mathlib.Data.List.Forall2
import Mathlib.Data.List.Induction
import Mathlib.Logic.Relation

/-!
# Rules — what of a document makes a rule

A document holds a rule for each element `suppress` right below its root, and each constraint of the
rule stands in the last child of that element with the name of the constraint. So what is read of
the children of an element is one list for each of the four names (`ofElement_eq`, `contentOf`), and
two lists of children say the same rule if these lists agree (`ofElement_congr`).

Everything else in a document may come and go (`IsEdited`, `ofDocument_of_isEdited`): comments,
instructions, texts and elements with other names, whatever is in them, and the order of children
with different names.
-/

namespace FindingFilter.Rule

open Xml

/-! ## The content under a name -/

/-- The content of the last of the nodes that is an element with the name; the empty text if it has
none, or if there is no such element. -/
def contentOf (label : String) (nodes : List Node) : String :=
  ((nodes.filter (Node.isElementNamed label)).getLast?.bind Node.text?).getD ""

/-- Under the name stands this content. -/
inductive HasContent (label : String) : List Node → String → Prop where
  | missing {nodes : List Node} (h : ∀ node ∈ nodes, node.isElementNamed label = false) :
      HasContent label nodes ""
  | last (before : List Node) {element : Node} {after : List Node}
      (helement : element.isElementNamed label = true)
      (hafter : ∀ node ∈ after, node.isElementNamed label = false) :
      HasContent label (before ++ element :: after) (element.text?.getD "")

variable {label : String} {nodes others : List Node}

theorem filter_isElementNamed_eq_nil (h : ∀ node ∈ nodes, node.isElementNamed label = false) :
    nodes.filter (Node.isElementNamed label) = [] := by
  rw [List.filter_eq_nil_iff]
  exact fun node hmem => Bool.not_eq_true _ ▸ h node hmem

theorem contentOf_append_singleton (node : Node) :
    contentOf label (nodes ++ [node]) =
      if node.isElementNamed label then node.text?.getD "" else contentOf label nodes := by
  unfold contentOf
  rw [List.filter_append]
  by_cases hnode : node.isElementNamed label = true
  · rw [List.filter_cons_of_pos hnode, List.filter_nil, List.getLast?_concat, if_pos hnode]
    rfl
  · rw [List.filter_cons_of_neg hnode, List.filter_nil, List.append_nil, if_neg hnode]

theorem contentOf_append_cons {element : Node} (helement : element.isElementNamed label = true)
    (hafter : ∀ node ∈ others, node.isElementNamed label = false) :
    contentOf label (nodes ++ element :: others) = element.text?.getD "" := by
  unfold contentOf
  rw [List.filter_append, List.filter_cons_of_pos helement, filter_isElementNamed_eq_nil hafter,
    List.getLast?_concat]
  rfl

theorem contentOf_congr (h : others.filter (Node.isElementNamed label) =
    nodes.filter (Node.isElementNamed label)) : contentOf label others = contentOf label nodes := by
  unfold contentOf
  rw [h]

theorem HasContent.append_singleton {content : String} (h : HasContent label nodes content)
    {node : Node} (hnode : node.isElementNamed label = false) :
    HasContent label (nodes ++ [node]) content := by
  have hlast : ∀ other ∈ [node], other.isElementNamed label = false :=
    List.forall_mem_singleton.mpr hnode
  cases h with
  | missing h => exact .missing (List.forall_mem_append.mpr ⟨h, hlast⟩)
  | last before helement hafter =>
    rw [List.append_assoc, List.cons_append]
    exact .last before helement (List.forall_mem_append.mpr ⟨hafter, hlast⟩)

/-- **There is exactly one content under each name.** -/
theorem hasContent_iff {content : String} :
    HasContent label nodes content ↔ content = contentOf label nodes := by
  refine ⟨fun h => ?_, ?_⟩
  · cases h with
    | missing h => rw [contentOf, filter_isElementNamed_eq_nil h]; rfl
    | last before helement hafter => exact (contentOf_append_cons helement hafter).symm
  · rintro rfl
    -- The last node counts if it has the name, and if not, the nodes before it are all there is.
    induction nodes using List.reverseRecOn with
    | nil => exact .missing fun node hmem => absurd hmem List.not_mem_nil
    | append_singleton nodes node ih =>
      rw [contentOf_append_singleton]
      by_cases hnode : node.isElementNamed label = true
      · rw [if_pos hnode]
        exact .last nodes hnode fun other hmem => absurd hmem List.not_mem_nil
      · rw [if_neg hnode]
        exact ih.append_singleton (Bool.not_eq_true _ ▸ hnode)

/-! ## The rule of an element -/

theorem withField_eq (rule : Rule) (child : Node) :
    rule.withField child =
      { rule with
        id := if child.isElementNamed "id" then child.text?.getD "" else rule.id
        file := if child.isElementNamed "fileName" then child.text?.getD "" else rule.file
        line := if child.isElementNamed "lineNumber" then
          Text.lineNumber (child.text?.getD "").toList else rule.line
        symbol := if child.isElementNamed "symbolName" then child.text?.getD "" else rule.symbol } := by
  unfold withField
  split
  next name children =>
    -- The four names are different, so at most one of the fields is set.
    split
    all_goals simp_all [Node.isElementNamed]
  next hother =>
    cases child with
    | element name children => exact absurd rfl (hother name children)
    | text content => rfl
    | comment => rfl
    | instruction => rfl

/-- **The constraints of a rule stand under their names.** -/
theorem ofElement_eq (element : Node) :
    ofElement element =
      { id := contentOf "id" element.children
        file := contentOf "fileName" element.children
        line := Text.lineNumber (contentOf "lineNumber" element.children).toList
        symbol := contentOf "symbolName" element.children } := by
  unfold ofElement
  induction element.children using List.reverseRecOn with
  | nil => rfl
  | append_singleton nodes node ih =>
    rw [List.foldl_concat, ih, withField_eq]
    simp only [contentOf_append_singleton]
    congr 1
    split
    · rfl
    · rfl

/-- The rule has the constraints that the children of an element set. -/
structure IsReadFrom (element : Node) (rule : Rule) : Prop where
  id : HasContent "id" element.children rule.id
  file : HasContent "fileName" element.children rule.file
  line : ∃ content, HasContent "lineNumber" element.children content ∧
    rule.line = Text.lineNumber content.toList
  symbol : HasContent "symbolName" element.children rule.symbol
  matched : rule.matched = false

theorem isReadFrom_iff {element : Node} {rule : Rule} :
    IsReadFrom element rule ↔ rule = ofElement element := by
  rw [ofElement_eq]
  refine ⟨fun h => ?_, ?_⟩
  · obtain ⟨id, file, line, symbol, matched⟩ := rule
    obtain ⟨hid, hfile, ⟨content, hcontent, hline⟩, hsymbol, hmatched⟩ := h
    rw [hasContent_iff] at hid hfile hcontent hsymbol
    simp only at hid hfile hline hsymbol hmatched
    rw [hid, hfile, hline, hcontent, hsymbol, hmatched]
  · rintro rfl
    exact ⟨hasContent_iff.mpr rfl, hasContent_iff.mpr rfl, ⟨_, hasContent_iff.mpr rfl, rfl⟩,
      hasContent_iff.mpr rfl, rfl⟩

theorem forall₂_isReadFrom_iff {elements : List Node} {rules : List Rule} :
    List.Forall₂ IsReadFrom elements rules ↔ rules = elements.map ofElement := by
  induction elements generalizing rules with
  | nil => rw [List.forall₂_nil_left_iff, List.map_nil]
  | cons element elements ih =>
    rw [List.forall₂_cons_left_iff, List.map_cons]
    refine ⟨?_, ?_⟩
    · rintro ⟨rule, more, hrule, hmore, rfl⟩
      rw [isReadFrom_iff.mp hrule, ih.mp hmore]
    · rintro rfl
      exact ⟨_, _, isReadFrom_iff.mpr rfl, ih.mpr rfl, rfl⟩

/-! ## Edits that do not matter -/

/-- The names of the elements that set a constraint. -/
def constraintNames : List String := ["id", "fileName", "lineNumber", "symbolName"]

/-- The other list of children sets the same constraints in the same order for each name. -/
inductive IsRearranged : List Node → List Node → Prop where
  /-- A node that sets no constraint is put between the children. -/
  | insert (before after : List Node) {node : Node}
      (h : ∀ label ∈ constraintNames, node.isElementNamed label = false) :
      IsRearranged (before ++ after) (before ++ node :: after)
  /-- The children are put in another order, those with the same name in the order they had. -/
  | permute {children others : List Node} (hperm : children.Perm others)
      (horder : ∀ label, others.filter (Node.isElementNamed label) =
        children.filter (Node.isElementNamed label)) : IsRearranged children others

/-- The other tree differs in one place, below its root or below one of the rules. -/
inductive IsEdited : Node → Node → Prop where
  /-- A node that is no rule is put below the root. -/
  | inRoot (root : QName) (before after : List Node) {node : Node}
      (h : node.isElementNamed "suppress" = false) :
      IsEdited (.element root (before ++ after)) (.element root (before ++ node :: after))
  /-- The children of a rule are rearranged. -/
  | inRule (root name : QName) (before after : List Node) {children others : List Node}
      (hname : name.label = "suppress") (h : IsRearranged children others) :
      IsEdited (.element root (before ++ .element name children :: after))
        (.element root (before ++ .element name others :: after))

/-- Two elements with the same contents under the four names say the same rule. -/
theorem ofElement_congr {element other : Node}
    (h : ∀ label ∈ constraintNames, contentOf label other.children = contentOf label element.children) :
    ofElement other = ofElement element := by
  rw [ofElement_eq, ofElement_eq, h "id" (by decide), h "fileName" (by decide),
    h "lineNumber" (by decide), h "symbolName" (by decide)]

theorem contentOf_of_isRearranged (h : IsRearranged nodes others) :
    ∀ label ∈ constraintNames, contentOf label others = contentOf label nodes := by
  intro label hlabel
  apply contentOf_congr
  cases h with
  | insert before after hnode =>
    have hskip : ¬ Node.isElementNamed label _ = true := Bool.not_eq_true _ ▸ hnode label hlabel
    rw [List.filter_append, List.filter_append, List.filter_cons_of_neg hskip]
  | permute hperm horder => exact horder label

/-- **One edit changes no rule.** -/
theorem ofDocument_of_isEdited {root other : Node} (h : IsEdited root other) :
    ofDocument other = ofDocument root := by
  cases h with
  | @inRoot name before after node hnode =>
    have hskip : ¬ node.isElementNamed "suppress" = true := Bool.not_eq_true _ ▸ hnode
    simp only [ofDocument, Node.children, List.filter_append, List.filter_cons_of_neg hskip]
  | @inRule root name before after children others hname h =>
    have hrule (nodes : List Node) : (Node.element name nodes).isElementNamed "suppress" = true :=
      beq_iff_eq.mpr hname
    have hsame : ofElement (.element name others) = ofElement (.element name children) :=
      ofElement_congr (contentOf_of_isRearranged h)
    simp only [ofDocument, Node.children, List.filter_append, List.filter_cons_of_pos (hrule _),
      List.map_append, List.map_cons, hsame]

/-- **A document is read by its structure.** The rules of a document are those of its tree: one for
each element `suppress` right below the root, in their order, and each constraint of a rule stands in
the last child of its element with the name of the constraint. So trees that come from one another
by any number of edits have the same rules: by nodes with other names, or with none, that are put
below the root or below a rule, and by children of a rule that change places with children of
another name. -/
theorem ofDocument_iff_isReadFrom (root : Node) :
    (∀ document, rootOf document = .ok root → ofXml document = .ok (ofDocument root)) ∧
      (∀ rules, List.Forall₂ IsReadFrom (root.children.filter (Node.isElementNamed "suppress")) rules ↔
        rules = ofDocument root) ∧
      ∀ other, Relation.ReflTransGen IsEdited root other → ofDocument other = ofDocument root := by
  refine ⟨fun document hread => ?_, fun rules => forall₂_isReadFrom_iff, fun other h => ?_⟩
  · rw [ofXml, hread]
    rfl
  · induction h with
    | refl => rfl
    | tail _ hedit ih => exact (ofDocument_of_isEdited hedit).trans ih

/-- A rule with two ids, the last of which counts; and the same with a comment in front of it, its
file in front of the ids, and a rule inside that is none. -/
theorem ofDocument_iff_isReadFrom_nested :
    let leaf (label content : String) : Node := .element ⟨"", label⟩ [.text content]
    let root : Node := .element ⟨"", "s"⟩
      [.element ⟨"x", "suppress"⟩ [leaf "id" "a", leaf "fileName" "f", leaf "id" "b"]]
    let other : Node := .element ⟨"", "s"⟩
      [.comment, .element ⟨"x", "suppress"⟩ [leaf "fileName" "f", leaf "id" "a",
        .element ⟨"", "suppress"⟩ [leaf "symbolName" "y"], leaf "id" "b"]]
    Relation.ReflTransGen IsEdited root other ∧ ofDocument other = ofDocument root ∧
      ofXml "<s xmlns:x='u'><x:suppress><id>a</id><fileName>f</fileName><id>b</id></x:suppress></s>" =
        .ok (ofDocument root) ∧
      ofDocument root = [{ id := "b", file := "f" }] := by
  intro leaf root other
  let swapped : Node := .element ⟨"", "s"⟩
    [.element ⟨"x", "suppress"⟩ [leaf "fileName" "f", leaf "id" "a", leaf "id" "b"]]
  let nested : Node := .element ⟨"", "s"⟩
    [.element ⟨"x", "suppress"⟩ [leaf "fileName" "f", leaf "id" "a",
      .element ⟨"", "suppress"⟩ [leaf "symbolName" "y"], leaf "id" "b"]]
  have hswap : IsEdited root swapped := by
    refine .inRule _ _ [] [] rfl (.permute (.swap _ _ _) fun label => ?_)
    by_cases hid : label = "id"
    · subst hid
      rfl
    · have hskip : ∀ content, ¬ (leaf "id" content).isElementNamed label = true := fun content =>
        mt beq_iff_eq.mp (Ne.symm hid)
      simp only [List.filter_cons, hskip, Bool.false_eq_true, if_false]
  have hnest : IsEdited swapped nested :=
    .inRule _ _ [] [] rfl (.insert [leaf "fileName" "f", leaf "id" "a"] [leaf "id" "b"] (by decide))
  have hcomment : IsEdited nested other := .inRoot _ [] _ rfl
  have hedited : Relation.ReflTransGen IsEdited root other :=
    ((Relation.ReflTransGen.single hswap).tail hnest).tail hcomment
  obtain ⟨hrules, -, hedits⟩ := ofDocument_iff_isReadFrom root
  exact ⟨hedited, hedits other hedited, hrules _ rfl, by decide⟩

end FindingFilter.Rule
