import FindingFilter.Proofs.Xml.Comment
import FindingFilter.Xml.Document
import Mathlib.Logic.Relation

/-!
# XML — a comment in the tree of a document

A comment is a node. Put between two nodes it changes nothing else; put inside a text it leaves two
texts where there was one (`IsJoined`, `IsCutText`). In `IsCommented` this has happened in one place
of a tree, as deep below the root as may be.

While a document is read, the element that holds the comment may still be open. So the relation is
carried through the reading as one between builders (`IsCommentedBuilder`): one step preserves it
(`IsCommentedBuilder.step`), and so does a run. Reading the comment itself brings it about
(`isCommentedBuilder_of_isGlued`).
-/

namespace FindingFilter.Xml

/-! ## Trees with a comment -/

/-- The text `whole` as two texts, with a comment between them. If the comment stands inside
character data, each part of the data is read for itself: so a line end at the cut may be read
in another way. -/
inductive IsCutText : String → String → String → Prop where
  | between (front back : String) : IsCutText (front ++ back) front back
  | within (before after : String) {front back whole left right : List Char}
      (hwhole : readText (front ++ back) = .ok whole) (hleft : readText front = .ok left)
      (hright : readText back = .ok right) :
      IsCutText (before ++ String.ofList whole ++ after) (before ++ String.ofList left)
        (String.ofList right ++ after)

/-- The nodes `left` and `right` without the comment between them. -/
inductive IsJoined : List Node → List Node → List Node → Prop where
  | apart (left right : List Node) : IsJoined left right (left ++ right)
  | within (left right : List Node) {whole front back : String} (h : IsCutText whole front back) :
      IsJoined (left ++ [.text front]) (.text back :: right) (left ++ .text whole :: right)

/-- The other tree has one comment more. -/
inductive IsCommented : Node → Node → Prop where
  | here (name : QName) {left right children : List Node} (h : IsJoined left right children) :
      IsCommented (.element name children) (.element name (left ++ .comment :: right))
  | deeper (name : QName) (before after : List Node) {node other : Node}
      (h : IsCommented node other) :
      IsCommented (.element name (before ++ node :: after))
        (.element name (before ++ other :: after))

/-! ## Children that are added -/

/-- The nodes with one more text behind them: text next to text is one text. -/
def appendText (content : String) : List Node → List Node
  | [] => [.text content]
  | [.text before] => [.text (before ++ content)]
  | node :: rest => node :: appendText content rest

theorem appendText_append (content : String) (left : List Node) {right : List Node}
    (hne : right ≠ []) : appendText content (left ++ right) = left ++ appendText content right := by
  induction left with
  | nil => rfl
  | cons node left ih =>
    rw [List.cons_append, List.cons_append, ← ih]
    refine appendText.eq_3 content node (left ++ right) ?_
    intro before _ hnil
    exact hne (List.append_eq_nil_iff.mp hnil).2

theorem appendText_cases (nodes : List Node) :
    (∃ front before, nodes = front ++ [.text before] ∧
      ∀ content, appendText content nodes = front ++ [.text (before ++ content)]) ∨
      ∀ content, appendText content nodes = nodes ++ [.text content] := by
  obtain rfl | ⟨front, node, rfl⟩ := nodes.eq_nil_or_concat'
  · exact .inr fun content => rfl
  · have hlast (content : String) :
        appendText content (front ++ [node]) = front ++ appendText content [node] :=
      appendText_append content front (List.cons_ne_nil node [])
    cases node with
    | text before => exact .inl ⟨front, before, rfl, hlast⟩
    | element | comment | instruction =>
      refine .inr fun content => ?_
      rw [hlast, List.append_assoc]
      rfl

theorem appendText_cons (content : String) (node : Node) {rest : List Node} (hne : rest ≠ []) :
    appendText content (node :: rest) = node :: appendText content rest :=
  appendText_append content [node] hne

theorem IsCutText.append {whole front back : String} (h : IsCutText whole front back)
    (content : String) : IsCutText (whole ++ content) front (back ++ content) := by
  cases h with
  | between front back =>
    rw [String.append_assoc]
    exact .between front (back ++ content)
  | within before after hwhole hleft hright =>
    have hafter (front : String) : front ++ after ++ content = front ++ (after ++ content) :=
      String.append_assoc
    rw [hafter, hafter]
    exact .within before (after ++ content) hwhole hleft hright

/-- Only elements hold a comment. -/
theorem IsCommented.exists_elements {node other : Node} (h : IsCommented node other) :
    ∃ name children others, node = .element name children ∧ other = .element name others := by
  cases h with
  | here name h => exact ⟨name, _, _, rfl, rfl⟩
  | deeper name before after h => exact ⟨name, _, _, rfl, rfl⟩

theorem IsCommented.concat {name : QName} {children others : List Node}
    (h : IsCommented (.element name children) (.element name others)) (node : Node) :
    IsCommented (.element name (children ++ [node])) (.element name (others ++ [node])) := by
  cases h with
  | @here _ left right _ h =>
    rw [List.append_assoc, List.cons_append]
    cases h with
    | apart =>
      rw [List.append_assoc]
      exact .here name (.apart left (right ++ [node]))
    | within left right h =>
      rw [List.append_assoc, List.cons_append]
      exact .here name (.within left (right ++ [node]) h)
  | deeper _ before after h =>
    rw [List.append_assoc, List.append_assoc, List.cons_append, List.cons_append]
    exact .deeper name before (after ++ [node]) h

theorem IsCommented.append_text {name : QName} {children others : List Node}
    (h : IsCommented (.element name children) (.element name others)) (content : String) :
    IsCommented (.element name (appendText content children))
      (.element name (appendText content others)) := by
  cases h with
  | @here _ left right _ h =>
    cases h with
    | apart =>
      rw [appendText_append content left (List.cons_ne_nil .comment right)]
      by_cases hright : right = []
      · subst hright
        obtain ⟨front, before, rfl, happend⟩ | happend := appendText_cases left
        · -- The text that goes on is the one in front of the comment.
          rw [List.append_nil, happend]
          exact .here name (.within front [] (.between before content))
        · rw [List.append_nil, happend]
          exact .here name (.apart left [.text content])
      · rw [appendText_append content left hright, appendText_cons content .comment hright]
        exact .here name (.apart left (appendText content right))
    | @within left right whole front back h =>
      rw [appendText_append content left (List.cons_ne_nil _ right),
        appendText_append content _ (List.cons_ne_nil .comment _),
        appendText_cons content .comment (List.cons_ne_nil _ right)]
      by_cases hright : right = []
      · subst hright
        exact .here name (.within left [] (h.append content))
      · rw [appendText_cons content _ hright, appendText_cons content _ hright]
        exact .here name (.within left (appendText content right) h)
  | @deeper _ before after node other h =>
    rw [appendText_append content before (List.cons_ne_nil node after),
      appendText_append content before (List.cons_ne_nil other after)]
    by_cases hafter : after = []
    · subst hafter
      obtain ⟨label, inner, others, rfl, rfl⟩ := h.exists_elements
      exact .deeper name before [.text content] h
    · rw [appendText_cons content node hafter, appendText_cons content other hafter]
      exact .deeper name before (appendText content after) h

/-! ## Open elements -/

/-- The element as it would be if it ended here. -/
def OpenElement.close (top : OpenElement) : Node := .element top.name top.children.reverse

theorem OpenElement.close_cons (top : OpenElement) (node : Node) :
    OpenElement.close { top with children := node :: top.children } =
      .element top.name (top.children.reverse ++ [node]) := by
  rw [close, List.reverse_cons]

theorem Builder.addText_children (top : OpenElement) (content : List Char) :
    (Builder.addText top content).children.reverse =
      appendText (String.ofList content) top.children.reverse := by
  obtain ⟨name, scope, children⟩ := top
  cases children with
  | nil => rfl
  | cons node children =>
    rw [List.reverse_cons, appendText_append _ _ (List.cons_ne_nil node [])]
    cases node with
    | text before => exact List.reverse_cons ..
    | element | comment | instruction =>
      show (Node.text (String.ofList content) :: _ :: children).reverse = _
      rw [List.reverse_cons, List.reverse_cons, List.append_assoc]
      rfl

theorem Builder.addText_name (top : OpenElement) (content : List Char) :
    (Builder.addText top content).name = top.name := by
  unfold Builder.addText
  split
  · rfl
  · rfl

theorem Builder.addText_scope (top : OpenElement) (content : List Char) :
    (Builder.addText top content).scope = top.scope := by
  unfold Builder.addText
  split
  · rfl
  · rfl

theorem Builder.close_addText (top : OpenElement) (content : List Char) :
    (Builder.addText top content).close =
      .element top.name (appendText (String.ofList content) top.children.reverse) := by
  rw [OpenElement.close, addText_name, addText_children]

/-- The open elements of two builders, one of which has one comment more. -/
structure OpenElement.IsCommented (top other : OpenElement) : Prop where
  name : other.name = top.name
  scope : other.scope = top.scope
  close : Xml.IsCommented top.close other.close

theorem OpenElement.IsCommented.addNode {top other : OpenElement} (h : top.IsCommented other)
    (node : Node) : OpenElement.IsCommented { top with children := node :: top.children }
      { other with children := node :: other.children } := by
  refine ⟨h.name, h.scope, ?_⟩
  have hclose := h.close
  rw [OpenElement.close, OpenElement.close, h.name] at hclose
  rw [close_cons, close_cons, h.name]
  exact hclose.concat node

theorem OpenElement.IsCommented.addText {top other : OpenElement} (h : top.IsCommented other)
    (content : List Char) :
    OpenElement.IsCommented (Builder.addText top content) (Builder.addText other content) := by
  refine ⟨?_, ?_, ?_⟩
  · rw [Builder.addText_name, Builder.addText_name, h.name]
  · rw [Builder.addText_scope, Builder.addText_scope, h.scope]
  · have hclose := h.close
    rw [OpenElement.close, OpenElement.close, h.name] at hclose
    rw [Builder.close_addText, Builder.close_addText, h.name]
    exact hclose.append_text (String.ofList content)

/-- An element that is added as it is to one and with a comment to the other. -/
theorem OpenElement.isCommented_of_addNode (top : OpenElement) {node other : Node}
    (h : Xml.IsCommented node other) :
    OpenElement.IsCommented { top with children := node :: top.children }
      { top with children := other :: top.children } := by
  refine ⟨rfl, rfl, ?_⟩
  rw [close_cons, close_cons]
  exact .deeper top.name top.children.reverse [] h

/-! ## Builders -/

/-- The open elements of two builders, where one of them holds the comment. -/
inductive IsCommentedStack : List OpenElement → List OpenElement → Prop where
  | top (outer : List OpenElement) {top other : OpenElement} (h : top.IsCommented other) :
      IsCommentedStack (top :: outer) (other :: outer)
  | push (first : OpenElement) {stack others : List OpenElement}
      (h : IsCommentedStack stack others) : IsCommentedStack (first :: stack) (first :: others)

/-- The other builder has read one comment more. -/
inductive IsCommentedBuilder : Builder → Builder → Prop where
  | inside (root : Option Node) {stack others : List OpenElement}
      (h : IsCommentedStack stack others) :
      IsCommentedBuilder { stack, root } { stack := others, root }
  | closed {root other : Node} (h : IsCommented root other) :
      IsCommentedBuilder { root := some root } { root := some other }

/-- What is done to both innermost elements alike, and keeps a comment in them, keeps it in the
stack. -/
theorem IsCommentedStack.exists_cons {stack others : List OpenElement}
    (h : IsCommentedStack stack others) :
    ∃ top rest other rest', stack = top :: rest ∧ others = other :: rest' ∧
      other.scope = top.scope ∧
      ∀ f : OpenElement → OpenElement,
        (∀ top other, top.IsCommented other → (f top).IsCommented (f other)) →
          IsCommentedStack (f top :: rest) (f other :: rest') := by
  cases h with
  | @top outer top other h =>
    exact ⟨top, outer, other, outer, rfl, rfl, h.scope, fun f hf => .top outer (hf _ _ h)⟩
  | @push first stack others h =>
    exact ⟨first, stack, first, others, rfl, rfl, rfl, fun f _ => .push (f first) h⟩

variable {builder other after : Builder}

theorem IsCommentedBuilder.scope_eq (h : IsCommentedBuilder builder other) :
    other.scope = builder.scope := by
  cases h with
  | inside root h =>
    obtain ⟨top, rest, other, rest', rfl, rfl, hscope, -⟩ := h.exists_cons
    exact hscope
  | closed h => rfl

theorem IsCommentedBuilder.addNode (h : IsCommentedBuilder builder other) {node : Node}
    (hadd : builder.addNode node = .ok after) :
    ∃ result, other.addNode node = .ok result ∧ IsCommentedBuilder after result := by
  cases h with
  | inside root h =>
    obtain ⟨top, rest, other, rest', rfl, rfl, -, hchange⟩ := h.exists_cons
    cases hadd
    exact ⟨_, rfl, .inside root (hchange (fun top => { top with children := node :: top.children })
      fun _ _ h => h.addNode node)⟩
  | closed h =>
    cases node with
    | element name children => cases hadd
    | text | comment | instruction =>
      cases hadd
      exact ⟨_, rfl, .closed h⟩

/-- An element that ends while the comment is in it takes the comment along. -/
theorem isCommentedBuilder_of_addNode {node commented : Node} (h : IsCommented node commented)
    (hadd : builder.addNode node = .ok after) :
    ∃ result, builder.addNode commented = .ok result ∧ IsCommentedBuilder after result := by
  obtain ⟨name, children, others, rfl, rfl⟩ := h.exists_elements
  obtain ⟨stack, root⟩ := builder
  cases stack with
  | nil =>
    unfold Builder.addNode at hadd ⊢
    simp only at hadd ⊢
    split at hadd
    next => cases hadd
    next hroot =>
      cases hadd
      rw [if_neg hroot]
      exact ⟨_, rfl, .closed h⟩
  | cons top outer =>
    cases hadd
    exact ⟨_, rfl, .inside root (.top outer (OpenElement.isCommented_of_addNode top h))⟩

/-- **One token keeps the comment where it is.** -/
theorem IsCommentedBuilder.step (h : IsCommentedBuilder builder other) {token : Token}
    (hstep : builder.step token = .ok after) :
    ∃ result, other.step token = .ok result ∧ IsCommentedBuilder after result := by
  cases token with
  | comment => exact h.addNode hstep
  | instruction => exact h.addNode hstep
  | text data =>
    cases h with
    | inside root h =>
      obtain ⟨top, rest, other, rest', rfl, rfl, -, hchange⟩ := h.exists_cons
      obtain ⟨content, hread, hstep⟩ := bind_eq_ok_iff.mp hstep
      cases hstep
      refine ⟨_, bind_eq_ok_iff.mpr ⟨content, hread, rfl⟩, .inside root ?_⟩
      exact hchange (Builder.addText · content) fun _ _ h => h.addText content
    | closed h =>
      unfold Builder.step at hstep ⊢
      simp only at hstep ⊢
      split at hstep
      next hspaces =>
        cases hstep
        rw [if_pos hspaces]
        exact ⟨_, rfl, .closed h⟩
      next => cases hstep
  | characterSection data =>
    cases h with
    | inside root h =>
      obtain ⟨top, rest, other, rest', rfl, rfl, -, hchange⟩ := h.exists_cons
      cases hstep
      exact ⟨_, rfl, .inside root
        (hchange (Builder.addText · (readSection data)) fun _ _ h => h.addText _)⟩
    | closed h => cases hstep
  | startTag name attributes empty =>
    obtain ⟨scope, hscope, hstep⟩ := bind_eq_ok_iff.mp hstep
    have hother : enterScope other.scope name attributes = .ok scope := by rw [h.scope_eq, hscope]
    cases empty with
    | true =>
      obtain ⟨result, hadd, h⟩ := h.addNode hstep
      exact ⟨result, bind_eq_ok_iff.mpr ⟨scope, hother, hadd⟩, h⟩
    | false =>
      cases h with
      | inside root h =>
        obtain ⟨top, rest, other, rest', rfl, rfl, -, -⟩ := h.exists_cons
        cases hstep
        refine ⟨_, bind_eq_ok_iff.mpr ⟨scope, hother, rfl⟩, .inside root (.push { name, scope } h)⟩
      | closed h => cases hstep
  | endTag name =>
    cases h with
    | inside root h =>
      cases h with
      | @top outer top other h =>
        unfold Builder.step at hstep ⊢
        simp only at hstep ⊢
        split at hstep
        next hname =>
          -- The element that holds the comment ends.
          rw [if_pos (h.name.trans hname)]
          exact isCommentedBuilder_of_addNode h.close hstep
        next => cases hstep
      | @push first stack others h =>
        unfold Builder.step at hstep ⊢
        simp only at hstep ⊢
        split at hstep
        next hname =>
          rw [if_pos hname]
          exact (IsCommentedBuilder.inside root h).addNode hstep
        next => cases hstep
    | closed h => cases hstep

/-- **A run keeps the comment where it is.** -/
theorem IsCommentedBuilder.run (h : IsCommentedBuilder builder other) {tokens : List Token}
    (hrun : builder.run tokens = .ok after) :
    ∃ result, other.run tokens = .ok result ∧ IsCommentedBuilder after result := by
  induction tokens generalizing builder other with
  | nil =>
    cases hrun
    exact ⟨other, rfl, h⟩
  | cons token tokens ih =>
    obtain ⟨between, hstep, hrun⟩ := bind_eq_ok_iff.mp hrun
    obtain ⟨result, hresult, h⟩ := h.step hstep
    obtain ⟨final, hfinal, h⟩ := ih h hrun
    exact ⟨final, bind_eq_ok_iff.mpr ⟨result, hresult, hfinal⟩, h⟩

/-! ## Where the comment is read -/

theorem Builder.run_append (builder : Builder) (left right : List Token) :
    builder.run (left ++ right) = builder.run left >>= fun between => between.run right := by
  induction left generalizing builder with
  | nil => rfl
  | cons token left ih =>
    show (builder.step token >>= fun next => next.run (left ++ right)) = _
    simp only [ih]
    exact (bind_assoc ..).symm

/-- No reference is open where data ends. -/
theorem piecesFrom_append {opened : Option (List Char)} {front : List Char} {found : List Piece}
    (h : piecesFrom opened front = .ok found) (back : List Char) :
    piecesFrom opened (front ++ back) = (pieces back).map (found ++ ·) := by
  induction opened, front using piecesFrom.induct generalizing found with
  | case1 =>
    cases h
    rw [List.nil_append, pieces]
    cases piecesFrom none back <;> rfl
  | case2 name => cases h
  | case3 rest ih => exact ih h
  | case4 c rest hc ih =>
    rw [piecesFrom] at h
    · obtain ⟨later, hlater, h⟩ := bind_eq_ok_iff.mp h
      cases h
      rw [List.cons_append, piecesFrom, ih hlater]
      · cases pieces back <;> rfl
      · exact hc
    · exact hc
  | case5 name rest c hreference ih =>
    rw [piecesFrom, hreference] at h
    obtain ⟨later, hlater, h⟩ := bind_eq_ok_iff.mp h
    cases h
    rw [List.cons_append, piecesFrom, hreference]
    simp only [ih hlater]
    cases pieces back <;> rfl
  | case6 name rest hreference =>
    rw [piecesFrom, hreference] at h
    cases h
  | case7 name c rest hc ih =>
    rw [piecesFrom] at h
    · rw [List.cons_append, piecesFrom, ih h]
      exact hc
    · exact hc

theorem readText_right {front back whole left : List Char}
    (hwhole : readText (front ++ back) = .ok whole) (hleft : readText front = .ok left) :
    ∃ right, readText back = .ok right := by
  obtain ⟨found, hfound, -⟩ := bind_eq_ok_iff.mp hleft
  obtain ⟨all, hall, -⟩ := bind_eq_ok_iff.mp hwhole
  rw [pieces, piecesFrom_append hfound] at hall
  cases hback : pieces back with
  | error cause =>
    rw [hback] at hall
    cases hall
  | ok later => exact ⟨_, bind_eq_ok_iff.mpr ⟨later, hback, rfl⟩⟩

/-- The comment at the end of what an element holds so far. -/
theorem OpenElement.isCommented_comment (top : OpenElement) :
    top.IsCommented { top with children := .comment :: top.children } := by
  refine ⟨rfl, rfl, ?_⟩
  have hjoined := IsJoined.apart top.children.reverse []
  rw [List.append_nil] at hjoined
  rw [close_cons]
  exact .here top.name hjoined

/-- The comment inside a text that is read. -/
theorem IsCommented.within (name : QName) (children : List Node)
    {front back whole left right : List Char} (hwhole : readText (front ++ back) = .ok whole)
    (hleft : readText front = .ok left) (hright : readText back = .ok right) :
    IsCommented (.element name (appendText (String.ofList whole) children))
      (.element name (appendText (String.ofList right)
        (appendText (String.ofList left) children ++ [.comment]))) := by
  rw [appendText_append _ _ (List.cons_ne_nil .comment [])]
  have hcut (before : String) : IsCutText (before ++ String.ofList whole)
      (before ++ String.ofList left) (String.ofList right) := by
    have h := IsCutText.within before "" hwhole hleft hright
    rwa [String.append_empty, String.append_empty] at h
  obtain ⟨nodes, before, rfl, happend⟩ | happend := appendText_cases children
  · rw [happend, happend]
    exact .here name (.within nodes [] (hcut before))
  · have h := hcut ""
    rw [String.empty_append, String.empty_append] at h
    rw [happend, happend]
    exact .here name (.within children [] h)

theorem OpenElement.isCommented_within (top : OpenElement) {front back whole left right : List Char}
    (hwhole : readText (front ++ back) = .ok whole) (hleft : readText front = .ok left)
    (hright : readText back = .ok right) :
    (Builder.addText top whole).IsCommented
      (Builder.addText { Builder.addText top left with
        children := .comment :: (Builder.addText top left).children } right) := by
  refine ⟨?_, ?_, ?_⟩
  · rw [Builder.addText_name, Builder.addText_name, Builder.addText_name]
  · rw [Builder.addText_scope, Builder.addText_scope, Builder.addText_scope]
  · rw [Builder.close_addText, Builder.close_addText, Builder.addText_name, List.reverse_cons,
      Builder.addText_children]
    exact .within top.name top.children.reverse hwhole hleft hright

/-- **A comment between tokens is a comment in what is built of them.** Outside of all elements it
leaves no trace. -/
theorem isCommentedBuilder_of_isGlued {left right all : List Token} {builder after : Builder}
    (h : IsGlued left right all) (hleft : Builder.run {} left = .ok builder)
    (hall : Builder.run {} all = .ok after) :
    ∃ result, Builder.run {} (left ++ .comment :: right) = .ok result ∧
      Relation.ReflGen IsCommentedBuilder after result := by
  simp only [Builder.run_append, hleft]
  cases h with
  | apart =>
    rw [Builder.run_append, hleft] at hall
    obtain ⟨stack, root⟩ := builder
    cases stack with
    | nil => exact ⟨after, hall, .refl⟩
    | cons top outer =>
      have hcomment : IsCommentedBuilder { stack := top :: outer, root } _ :=
        .inside root (.top outer top.isCommented_comment)
      obtain ⟨result, hrun, h⟩ := hcomment.run hall
      exact ⟨result, hrun, .single h⟩
  | within left right front back =>
    rw [Builder.run_append] at hleft hall
    obtain ⟨between, hbetween, hfront⟩ := bind_eq_ok_iff.mp hleft
    obtain ⟨_, hfront, hend⟩ := bind_eq_ok_iff.mp hfront
    cases hend
    have hall : between.run (.text (front ++ back) :: right) = .ok after := by
      rwa [hbetween] at hall
    obtain ⟨later, hwhole, hall⟩ := bind_eq_ok_iff.mp hall
    obtain ⟨stack, root⟩ := between
    cases stack with
    | nil =>
      -- Outside of all elements there is white space only, in each part of it as well.
      unfold Builder.step at hfront hwhole
      simp only at hfront hwhole
      split at hwhole
      next hspaces =>
        rw [List.all_append, Bool.and_eq_true] at hspaces
        rw [if_pos hspaces.1] at hfront
        cases hfront
        cases hwhole
        refine ⟨after, ?_, .refl⟩
        show Builder.run { root } (.comment :: .text back :: right) = _
        exact bind_eq_ok_iff.mpr ⟨_, rfl, bind_eq_ok_iff.mpr ⟨_, if_pos hspaces.2, hall⟩⟩
      next => cases hwhole
    | cons top outer =>
      obtain ⟨whole, hreadWhole, hwhole⟩ := bind_eq_ok_iff.mp hwhole
      obtain ⟨front', hreadFront, hfront⟩ := bind_eq_ok_iff.mp hfront
      obtain ⟨back', hreadBack⟩ := readText_right hreadWhole hreadFront
      cases hwhole
      cases hfront
      have hcomment : IsCommentedBuilder { stack := Builder.addText top whole :: outer, root } _ :=
        .inside root (.top outer (top.isCommented_within hreadWhole hreadFront hreadBack))
      obtain ⟨result, hrun, h⟩ := hcomment.run hall
      refine ⟨result, ?_, .single h⟩
      show Builder.run { stack := Builder.addText top front' :: outer, root }
        (.comment :: .text back :: right) = _
      exact bind_eq_ok_iff.mpr ⟨_, rfl, bind_eq_ok_iff.mpr
        ⟨_, bind_eq_ok_iff.mpr ⟨back', hreadBack, rfl⟩, hrun⟩⟩

/-! ## Where a comment may stand -/

/-- The text is the beginning of a document that a comment may follow: it holds a token and ends in
one, or in character data where no reference is open. -/
def MayPrecedeComment (before : String) : Prop :=
  ∃ tokens builder, Xml.tokens before.toList = .ok tokens ∧ tokens ≠ [] ∧
    Builder.run {} tokens = .ok builder

theorem rootOf_eq_ok_iff {document : String} {root : Node} :
    rootOf document = .ok root ↔ ∃ found, tokens document.toList = .ok found ∧
      Builder.run {} found = .ok { root := some root } := by
  unfold rootOf
  simp only [bind_eq_ok_iff]
  refine ⟨?_, ?_⟩
  · rintro ⟨found, hfound, ⟨stack, root'⟩, hrun, h⟩
    cases stack with
    | cons => cases h
    | nil =>
      cases root' with
      | none => cases h
      | some root' =>
        cases h
        exact ⟨found, hfound, hrun⟩
  · rintro ⟨found, hfound, hrun⟩
    exact ⟨found, hfound, _, hrun, rfl⟩

/-- **A comment put into a document is a comment put into its tree.** -/
theorem rootOf_comment {before comment after : String} {root : Node}
    (hbefore : MayPrecedeComment before) (hcomment : IsComment comment.toList)
    (h : rootOf (before ++ after) = .ok root) :
    ∃ other, rootOf (before ++ comment ++ after) = .ok other ∧
      Relation.ReflGen IsCommented root other := by
  obtain ⟨left, builder, hleft, hne, hbuilder⟩ := hbefore
  obtain ⟨all, hall, hroot⟩ := rootOf_eq_ok_iff.mp h
  rw [String.toList_append] at hall
  obtain ⟨right, hglued, htokens⟩ := tokens_comment hleft hne hcomment hall
  obtain ⟨result, hrun, hresult⟩ := isCommentedBuilder_of_isGlued hglued hbuilder hroot
  rw [← String.toList_append, ← String.toList_append, ← String.append_assoc] at htokens
  cases hresult with
  | refl => exact ⟨root, rootOf_eq_ok_iff.mpr ⟨_, htokens, hrun⟩, .refl⟩
  | single hresult =>
    cases hresult with
    | inside root h => cases h
    | @closed root other h => exact ⟨other, rootOf_eq_ok_iff.mpr ⟨_, htokens, hrun⟩, .single h⟩

end FindingFilter.Xml
