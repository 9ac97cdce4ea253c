import FindingFilter.Proofs.Lists
import FindingFilter.Proofs.Rule.Check
import FindingFilter.Proofs.RuleStore.WellFormed

/-!
# Rule stores — what a source of rules leaves behind

Rules come from a text, a stream, an XML document or a file with one. A source is read in full
before the first of its rules is added; then its rules are added in order, up to the first with a
refused id. So what is in the store afterwards can be told from what is in the source.

* **`addAll_append`** — accepted rules enter one after another (`enterAll`), and what happens then
  depends on the rules behind them only;
* **`isExtendedBy_enterAll`** — rules that enter stand behind the old ones, with flags that are not
  set, and with their positions at the end of the index that their scope calls for;
* **`fails_or_holds`** — a source either cannot be read, and says why, or holds a list of rules.

`isExtendedBy_load` puts them together for every store and every source.
-/

namespace FindingFilter

/-- The rules in a text, checked or not. -/
def Rule.ofText (content : String) : List Rule :=
  (ruleLines content.toList).map fun line => ofLine (String.ofList line)

theorem Rule.matched_ofLine (line : String) : (ofLine line).matched = false := by
  unfold ofLine
  split <;> rfl

/-- Every element sets one constraint at most, and the flag is none. -/
theorem Rule.matched_withField (rule : Rule) (child : Xml.Node) :
    (rule.withField child).matched = rule.matched := by
  unfold withField
  split
  · split <;> rfl
  · rfl

theorem Rule.matched_ofElement (element : Xml.Node) : (ofElement element).matched = false := by
  have hfold (children : List Xml.Node) (rule : Rule) :
      (children.foldl withField rule).matched = rule.matched := by
    induction children generalizing rule with
    | nil => rfl
    | cons child children ih => rw [List.foldl_cons, ih, matched_withField]
  exact hfold element.children { id := "" }

namespace RuleStore

/-! ## Rules that enter -/

/-- The store with rules entered one after another, whatever their ids. -/
def enterAll (store : RuleStore) (rules : List Rule) : RuleStore :=
  rules.foldl entered store

theorem enterAll_cons (store : RuleStore) (rule : Rule) (rules : List Rule) :
    store.enterAll (rule :: rules) = (store.entered rule).enterAll rules := rfl

/-- Accepted rules enter, and then the rules behind them are added. -/
theorem addAll_append {accepted : List Rule} (haccepted : ∀ rule ∈ accepted, rule.check = .ok ())
    (store : RuleStore) (rest : List Rule) :
    store.addAll (accepted ++ rest) = (store.enterAll accepted).addAll rest := by
  induction accepted generalizing store with
  | nil => rfl
  | cons rule accepted ih =>
    obtain ⟨hrule, htail⟩ := List.forall_mem_cons.mp haccepted
    have hadd : store.add rule = .ok (store.entered rule) := add_eq_ok_iff.mpr ⟨hrule, rfl⟩
    rw [List.cons_append, addAll, hadd]
    exact ih htail (store.entered rule)

theorem addAll_of_accepted {accepted : List Rule}
    (haccepted : ∀ rule ∈ accepted, rule.check = .ok ()) (store : RuleStore) :
    store.addAll accepted = { store := store.enterAll accepted } := by
  have happend := addAll_append haccepted store []
  rw [List.append_nil] at happend
  exact happend

theorem add_of_refused {rule : Rule} {cause : RuleError} (hrefused : rule.check = .error cause)
    (store : RuleStore) : store.add rule = .error cause := by
  unfold add
  rw [hrefused]

/-- The rules from the place on where adding stops, and what stops it. -/
inductive StopsAt : List Rule → Option LoadError → Prop where
  | atEnd : StopsAt [] none
  | atRefused {rule : Rule} {cause : RuleError} (hrefused : rule.check = .error cause)
      (rest : List Rule) : StopsAt (rule :: rest) (some (.rule cause))

theorem addAll_of_stopsAt {rest : List Rule} {failure : Option LoadError}
    (hstop : StopsAt rest failure) (store : RuleStore) : store.addAll rest = { store, failure } := by
  cases hstop with
  | atEnd => rfl
  | atRefused hrefused rest => rw [addAll, add_of_refused hrefused]

/-- In every list of rules adding stops somewhere, and all rules before that place are accepted. -/
theorem exists_stopsAt (rules : List Rule) :
    ∃ accepted rest failure, rules = accepted ++ rest ∧
      (∀ rule ∈ accepted, rule.check = .ok ()) ∧ StopsAt rest failure := by
  rcases forall_or_exists_first (fun rule => rule.check = .ok ()) rules with
    haccepted | ⟨accepted, rule, rest, rfl, haccepted, hrefused⟩
  · exact ⟨rules, [], none, (List.append_nil rules).symm, haccepted, .atEnd⟩
  · cases hcheck : rule.check with
    | ok => exact absurd hcheck hrefused
    | error cause => exact ⟨accepted, rule :: rest, _, rfl, haccepted, .atRefused hcheck rest⟩

/-! ## The store behind which rules stand -/

/-- The positions of the rules with a property, if the first of the rules stands at `first`. -/
def positionsFrom (first : Nat) (p : Rule → Bool) (rules : List Rule) : List Nat :=
  (rules.zipIdx first).filterMap fun entry => if p entry.1 then some entry.2 else none

/-- A store is another one with rules behind its own. The old rules, flags and index entries are
where they were, and the flags of the new rules are not set. -/
structure IsExtendedBy (store : RuleStore) (added : List Rule) (later : RuleStore) : Prop where
  matching : later.matching = store.matching
  rules : later.rules.toList = store.rules.toList ++ added
  flags : later.flags.toList = store.flags.toList ++ List.replicate added.length false
  positionsIn : ∀ file, later.positionsIn file = store.positionsIn file ++
    positionsFrom store.size
      (fun rule => rule.scope store.matching == .oneFile && rule.file == file) added
  acrossFiles : later.acrossFiles.toList = store.acrossFiles.toList ++
    positionsFrom store.size (fun rule => rule.scope store.matching == .anyFile) added

theorem positionsFrom_cons (first : Nat) (p : Rule → Bool) (rule : Rule) (rules : List Rule) :
    positionsFrom first p (rule :: rules) =
      (if p rule then [first] else []) ++ positionsFrom (first + 1) p rules := by
  unfold positionsFrom
  rw [List.zipIdx_cons, List.filterMap_cons]
  cases p rule <;> rfl

theorem isExtendedBy_enterAll {added : List Rule} (hnew : ∀ rule ∈ added, rule.matched = false)
    (store : RuleStore) : store.IsExtendedBy added (store.enterAll added) := by
  induction added generalizing store with
  | nil => constructor <;> simp [enterAll, positionsFrom]
  | cons rule added ih =>
    obtain ⟨hrule, hadded⟩ := List.forall_mem_cons.mp hnew
    have hrest := ih hadded (store.entered rule)
    have hrules : (store.entered rule).rules.toList = store.rules.toList ++ [rule] :=
      Array.toList_push
    have hflags : (store.entered rule).flags.toList = store.flags.toList ++ [rule.matched] :=
      Array.toList_push
    rw [enterAll_cons]
    -- The rules after the first stand behind a store that is one rule longer already.
    constructor
    · exact hrest.matching
    · rw [hrest.rules, hrules, List.append_assoc, List.singleton_append]
    · rw [hrest.flags, hflags, hrule, List.append_assoc, List.singleton_append, List.length_cons,
        List.replicate_succ]
    · intro file
      rw [hrest.positionsIn, positionsIn_entered, size_entered, positionsFrom_cons,
        List.append_assoc]
      rfl
    · rw [hrest.acrossFiles, acrossFiles_entered, size_entered, positionsFrom_cons,
        List.append_assoc]
      rfl

/-! ## Sources -/

/-- What rules are loaded from. -/
inductive Input where
  | text (content : String)
  /-- A stream gives all of its bytes, or fails before its end. -/
  | stream (content : Except FileError ByteArray)
  | document (content : String)
  | documentFile (tree : FileTree) (path : String)

def load (store : RuleStore) : Input → Loading
  | .text content => store.addText content
  | .stream content => store.addStream content
  | .document content => store.addXml content
  | .documentFile tree path => store.addXmlFile tree path

namespace Input

/-- The source can be read, and these are its rules in source order, checked or not. -/
inductive Holds : Input → List Rule → Prop where
  | text (content : String) : Holds (.text content) (Rule.ofText content)
  | stream (content : String) : Holds (.stream (.ok content.toUTF8)) (Rule.ofText content)
  | document {content : String} {root : Xml.Node} (hread : Xml.rootOf content = .ok root) :
      Holds (.document content) (Rule.ofDocument root)
  | documentFile {tree : FileTree} {path content : String} {rules : List Rule}
      (hread : tree.readText path = .ok content) (h : Holds (.document content) rules) :
      Holds (.documentFile tree path) rules

/-- The source cannot be read, and this is what is said about it. -/
inductive Fails : Input → LoadError → Prop where
  | unreadable (cause : FileError) : Fails (.stream (.error cause)) (.unreadable cause)
  | notText {content : ByteArray} (h : ∀ text : String, content ≠ text.toUTF8) :
      Fails (.stream (.ok content)) (.unreadable .notText)
  | malformed {content : String} {cause : Xml.Error} (h : Xml.rootOf content = .error cause) :
      Fails (.document content) (.malformedXml cause)
  | fileNotFound {tree : FileTree} {path : String} {cause : FileError}
      (h : tree.readText path = .error cause) : Fails (.documentFile tree path) (.fileNotFound path)
  | malformedFile {tree : FileTree} {path content : String} {cause : LoadError}
      (hread : tree.readText path = .ok content) (h : Fails (.document content) cause) :
      Fails (.documentFile tree path) cause

/-- Nothing else can happen. -/
theorem fails_or_holds (input : Input) :
    (∃ cause, input.Fails cause) ∨ ∃ rules, input.Holds rules := by
  have hdocument (content : String) :
      (∃ cause, (document content).Fails cause) ∨ ∃ rules, (document content).Holds rules := by
    cases hread : Xml.rootOf content with
    | error cause => exact .inl ⟨_, .malformed hread⟩
    | ok root => exact .inr ⟨_, .document hread⟩
  cases input with
  | text content => exact .inr ⟨_, .text content⟩
  | stream content =>
    cases content with
    | error cause => exact .inl ⟨_, .unreadable cause⟩
    | ok content =>
      by_cases htext : ∃ text : String, content = text.toUTF8
      · obtain ⟨text, rfl⟩ := htext
        exact .inr ⟨_, .stream text⟩
      · exact .inl ⟨_, .notText fun text heq => htext ⟨text, heq⟩⟩
  | document content => exact hdocument content
  | documentFile tree path =>
    cases hread : tree.readText path with
    | error cause => exact .inl ⟨_, .fileNotFound hread⟩
    | ok content =>
      rcases hdocument content with ⟨cause, hfails⟩ | ⟨rules, hholds⟩
      · exact .inl ⟨cause, .malformedFile hread hfails⟩
      · exact .inr ⟨rules, .documentFile hread hholds⟩

theorem matched_of_holds {input : Input} {rules : List Rule} (h : input.Holds rules) :
    ∀ rule ∈ rules, rule.matched = false := by
  have htext (content : String) : ∀ rule ∈ Rule.ofText content, rule.matched = false := by
    intro rule hmem
    obtain ⟨line, -, rfl⟩ := List.mem_map.mp hmem
    exact Rule.matched_ofLine _
  induction h with
  | text content => exact htext content
  | stream content => exact htext content
  | document hread =>
    intro rule hmem
    obtain ⟨element, -, rfl⟩ := List.mem_map.mp hmem
    exact Rule.matched_ofElement element
  | documentFile hread h ih => exact ih

end Input

theorem load_of_fails {input : Input} {cause : LoadError} (h : input.Fails cause)
    (store : RuleStore) : store.load input = { store, failure := some cause } := by
  induction h with
  | unreadable cause => rfl
  | @notText content h =>
    show store.addBytes content = _
    unfold addBytes
    cases hdecode : FileTree.decodeText content with
    | ok text => exact absurd (FileTree.decodeText_eq_ok_iff.mp hdecode) (h text)
    | error cause => rw [FileTree.eq_notText_of_decodeText hdecode]
  | @malformed content cause h =>
    show store.addXml content = _
    rw [addXml, Rule.ofXml, h]
    rfl
  | @fileNotFound tree path cause h =>
    show store.addXmlFile tree path = _
    rw [addXmlFile, h]
  | @malformedFile tree path content cause hread h ih =>
    show store.addXmlFile tree path = _
    rw [addXmlFile, hread]
    exact ih

theorem load_of_holds {input : Input} {rules : List Rule} (h : input.Holds rules)
    (store : RuleStore) : store.load input = store.addAll rules := by
  induction h with
  | text content => rfl
  | stream content =>
    have hdecode : FileTree.decodeText content.toUTF8 = .ok content :=
      FileTree.decodeText_eq_ok_iff.mpr rfl
    show store.addBytes content.toUTF8 = _
    rw [addBytes, hdecode]
    rfl
  | @document content root hread =>
    show store.addXml content = _
    rw [addXml, Rule.ofXml, hread]
    rfl
  | @documentFile tree path content rules hread h ih =>
    show store.addXmlFile tree path = _
    rw [addXmlFile, hread]
    exact ih

/-- **Loading adds the rules before the first refused one.** A source that cannot be read leaves the
store as it is, and the failure says why. Every other source holds rules, and of these the ones
before the first with a refused id, all if there is none, stand behind the old rules afterwards, with
flags that are not set; the failure is that of the refused rule, if there is one. -/
theorem isExtendedBy_load (store : RuleStore) (input : Input) :
    ((∃ cause, input.Fails cause) ∨ ∃ rules, input.Holds rules) ∧
      (∀ cause, input.Fails cause → store.load input = { store, failure := some cause }) ∧
      ∀ rules, input.Holds rules → ∃ accepted rest, rules = accepted ++ rest ∧
        (∀ rule ∈ accepted, rule.id = Rule.anyId ∨ Rule.IsName rule.id) ∧
        store.IsExtendedBy accepted (store.load input).store ∧
        StopsAt rest (store.load input).failure := by
  refine ⟨input.fails_or_holds, fun cause h => load_of_fails h store, ?_⟩
  intro rules h
  obtain ⟨accepted, rest, failure, rfl, haccepted, hstop⟩ := exists_stopsAt rules
  have hload : store.load input = { store := store.enterAll accepted, failure } := by
    rw [load_of_holds h, addAll_append haccepted, addAll_of_stopsAt hstop]
  have hnew : ∀ rule ∈ accepted, rule.matched = false := fun rule hmem =>
    Input.matched_of_holds h rule (List.mem_append_left rest hmem)
  have hids : ∀ rule ∈ accepted, rule.id = Rule.anyId ∨ Rule.IsName rule.id := fun rule hmem =>
    Rule.check_eq_ok_iff.mp (haccepted rule hmem)
  rw [hload]
  exact ⟨accepted, rest, rfl, hids, isExtendedBy_enterAll hnew store, hstop⟩

/-- A text whose third rule is refused adds two rules; bytes that are no text add none, though they
begin with a rule. -/
theorem isExtendedBy_load_refused_line :
    let store := ((empty .glob).addText "leak:*.c").store
    let content := "// rules\nnull:a.c\r\nleak::7\n1bad\nmem"
    let bytes : ByteArray := ⟨#[0x61, 0x0A, 0xFF]⟩
    (Input.text content).Holds (Rule.ofText content) ∧
      (Input.stream (.ok bytes)).Fails (.unreadable .notText) ∧
      store.load (.stream (.ok bytes)) = { store, failure := some (.unreadable .notText) } ∧
      (∃ accepted rest, Rule.ofText content = accepted ++ rest ∧
        (∀ rule ∈ accepted, rule.id = Rule.anyId ∨ Rule.IsName rule.id) ∧
        store.IsExtendedBy accepted (store.load (.text content)).store ∧
        StopsAt rest (store.load (.text content)).failure) ∧
      (store.load (.text content)).store.size = 3 ∧
      (store.load (.text content)).failure = some (.rule (.invalidId "1bad")) := by
  intro store content bytes
  have hholds : (Input.text content).Holds (Rule.ofText content) := .text content
  have hfails : (Input.stream (.ok bytes)).Fails (.unreadable .notText) := by
    apply Input.Fails.notText
    intro text heq
    have hdecode := FileTree.decodeText_eq_ok_iff.mpr heq
    have hnone : (FileTree.decodeText bytes).toOption = none := by decide +kernel
    rw [hdecode] at hnone
    cases hnone
  have hstream := (isExtendedBy_load store (.stream (.ok bytes))).2.1 _ hfails
  have htext := (isExtendedBy_load store (.text content)).2.2 _ hholds
  exact ⟨hholds, hfails, hstream, htext, by decide +kernel, by decide +kernel⟩

end RuleStore

end FindingFilter
