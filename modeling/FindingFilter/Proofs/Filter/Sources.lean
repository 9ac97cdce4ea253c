import FindingFilter.Filter.Plan
import FindingFilter.Proofs.Lists
import FindingFilter.Proofs.Results
import FindingFilter.Proofs.RuleStore.Acceptance

/-!
# Filters — what a plan loads

A plan names its sources by file patterns, which are expanded, and by single rules. This module says
what a build makes of them, without the loops that do it:

* **`RuleSource.Gives`** — a source can be read, and these are its rules, all of them accepted. What a
  source gives does not depend on the store that it is loaded into (`RuleSource.gives_or_fails`);
* **`FilterPlan.HasSources`** — the sources of a plan in the order in which they are loaded;
* **`FilterPlan.build_eq_ok_iff`** — a build succeeds if and only if every pattern can be expanded and
  every source gives its rules, and then these are the rules of the store, in order.

If the order is not asked for, `FilterPlan.isOk_build_iff` and `FilterPlan.mem_rules_build_iff` say
the same by way of the sources that the plan names somewhere (`FilterPlan.Names`).
-/

namespace FindingFilter

/-! ## One source -/

namespace RuleSource

open RuleStore (Input)

/-- The source can be read, and these are its rules, checked or not. -/
inductive Holds (tree : FileTree) : RuleSource → List Rule → Prop where
  | lineFile {path : String} {rules : List Rule}
      (h : (Input.stream (tree.readBytes path)).Holds rules) : Holds tree (.lineFile path) rules
  | xmlFile {path : String} {rules : List Rule} (h : (Input.documentFile tree path).Holds rules) :
      Holds tree (.xmlFile path) rules
  | inline (line : String) : Holds tree (.inline line) [Rule.ofLine line]

/-- The source can be read, and these are its rules, all of them accepted. -/
structure Gives (tree : FileTree) (source : RuleSource) (rules : List Rule) : Prop where
  holds : source.Holds tree rules
  accepted : ∀ rule ∈ rules, rule.check = .ok ()

variable {tree : FileTree} {source : RuleSource} {rules : List Rule}

theorem loadInto_of_holds (h : source.Holds tree rules) (store : RuleStore) :
    source.loadInto tree store = store.addAll rules := by
  cases h with
  | lineFile h => exact RuleStore.load_of_holds h store
  | xmlFile h => exact RuleStore.load_of_holds h store
  | inline line =>
    rw [loadInto, RuleStore.addLine, RuleStore.addAll]
    cases store.add (Rule.ofLine line) with
    | ok changed => rfl
    | error cause => rfl

theorem loadInto_of_gives (h : source.Gives tree rules) (store : RuleStore) :
    source.loadInto tree store = { store := store.enterAll rules } := by
  rw [loadInto_of_holds h.holds, RuleStore.addAll_of_accepted h.accepted]

/-- The source gives no rules, and this is what is said about it: it cannot be read, or a rule in it
is refused and all rules in front of that one are accepted. -/
inductive Fails (tree : FileTree) : RuleSource → LoadError → Prop where
  | lineFile {path : String} {cause : LoadError}
      (h : (Input.stream (tree.readBytes path)).Fails cause) : Fails tree (.lineFile path) cause
  | xmlFile {path : String} {cause : LoadError} (h : (Input.documentFile tree path).Fails cause) :
      Fails tree (.xmlFile path) cause
  | refused {source : RuleSource} {accepted rest : List Rule} {rule : Rule} {cause : RuleError}
      (hholds : source.Holds tree (accepted ++ rule :: rest))
      (haccepted : ∀ rule ∈ accepted, rule.check = .ok ()) (hrefused : rule.check = .error cause) :
      Fails tree source (.rule cause)

/-- What is said about a source does not depend on the store. -/
theorem failure_loadInto_of_fails {cause : LoadError} (h : source.Fails tree cause)
    (store : RuleStore) : (source.loadInto tree store).failure = some cause := by
  cases h with
  | lineFile h => exact congrArg Loading.failure (RuleStore.load_of_fails h store)
  | xmlFile h => exact congrArg Loading.failure (RuleStore.load_of_fails h store)
  | refused hholds haccepted hrefused =>
    rw [loadInto_of_holds hholds, RuleStore.addAll_append haccepted,
      RuleStore.addAll_of_stopsAt (.atRefused hrefused _)]

theorem not_gives_of_fails {cause : LoadError} (h : source.Fails tree cause) :
    ¬ ∃ rules, source.Gives tree rules := by
  rintro ⟨rules, hgives⟩
  have hfailure := failure_loadInto_of_fails h (.empty .literal)
  rw [loadInto_of_gives hgives] at hfailure
  cases hfailure

/-- **A source is loaded into every store in the same way**, or into none: if it does not give rules,
there is a failure to tell, the same whatever is in the store. -/
theorem gives_or_fails (tree : FileTree) (source : RuleSource) :
    (∃ rules, source.Gives tree rules) ∨ ∃ cause, source.Fails tree cause := by
  have hcheck {rules : List Rule} (hholds : source.Holds tree rules) :
      (∃ rules, source.Gives tree rules) ∨ ∃ cause, source.Fails tree cause := by
    -- Where the loading stops is said by the rules alone, not by the store.
    obtain ⟨accepted, rest, failure, rfl, haccepted, hstop⟩ := RuleStore.exists_stopsAt rules
    cases hstop with
    | atEnd =>
      rw [List.append_nil] at hholds
      exact Or.inl ⟨accepted, hholds, haccepted⟩
    | atRefused hrefused rest => exact Or.inr ⟨_, .refused hholds haccepted hrefused⟩
  cases source with
  | lineFile path =>
    rcases (Input.stream (tree.readBytes path)).fails_or_holds with ⟨cause, hfails⟩ | ⟨rules, h⟩
    · exact Or.inr ⟨cause, .lineFile hfails⟩
    · exact hcheck (.lineFile h)
  | xmlFile path =>
    rcases (Input.documentFile tree path).fails_or_holds with ⟨cause, hfails⟩ | ⟨rules, h⟩
    · exact Or.inr ⟨cause, .xmlFile hfails⟩
    · exact hcheck (.xmlFile h)
  | inline line => exact hcheck (.inline line)

end RuleSource

namespace RuleStore

theorem matching_enterAll (store : RuleStore) (rules : List Rule) :
    (store.enterAll rules).matching = store.matching := by
  induction rules generalizing store with
  | nil => rfl
  | cons rule rules ih => rw [enterAll_cons, ih]; rfl

theorem rules_enterAll (store : RuleStore) (rules : List Rule) :
    (store.enterAll rules).rules.toList = store.rules.toList ++ rules := by
  induction rules generalizing store with
  | nil => exact (List.append_nil _).symm
  | cons rule rules ih =>
    have hpush : (store.entered rule).rules.toList = store.rules.toList ++ [rule] :=
      Array.toList_push
    rw [enterAll_cons, ih, hpush, List.append_assoc, List.singleton_append]

theorem enterAll_append (store : RuleStore) (rules more : List Rule) :
    store.enterAll (rules ++ more) = (store.enterAll rules).enterAll more :=
  List.foldl_append

end RuleStore

/-- A source gives one list of rules only: the one that loading it leaves in an empty store. -/
theorem RuleSource.Gives.unique {tree : FileTree} {source : RuleSource} {rules others : List Rule}
    (h : source.Gives tree rules) (h' : source.Gives tree others) : rules = others := by
  have hload : (RuleStore.empty .literal).enterAll rules =
      (RuleStore.empty .literal).enterAll others := by
    have hsame := (loadInto_of_gives h (.empty .literal)).symm.trans
      (loadInto_of_gives h' (.empty .literal))
    exact congrArg Loading.store hsame
  have hrules := congrArg (fun store : RuleStore => store.rules.toList) hload
  simpa [RuleStore.rules_enterAll, RuleStore.empty] using hrules

/-! ## All sources -/

namespace RuleStore

variable {tree : FileTree} {source : RuleSource} {store : RuleStore}

theorem loadAll_cons_of_gives {rules : List Rule} (h : source.Gives tree rules)
    (rest : List RuleSource) :
    store.loadAll tree (source :: rest) = (store.enterAll rules).loadAll tree rest := by
  rw [loadAll, RuleSource.loadInto_of_gives h]

theorem loadAll_cons_of_fails {cause : LoadError} (h : source.Fails tree cause)
    (rest : List RuleSource) :
    store.loadAll tree (source :: rest) = .error (.source source.origin cause) := by
  have hfailure := RuleSource.failure_loadInto_of_fails h store
  rw [loadAll]
  split
  next hload =>
    rw [hload] at hfailure
    cases hfailure
  next hload =>
    rw [hload] at hfailure
    cases hfailure
    rfl

/-- **Loading succeeds if every source gives its rules**, and then they stand behind those of the
store, in order. -/
theorem loadAll_eq_ok_iff {sources : List RuleSource} {later : RuleStore} :
    store.loadAll tree sources = .ok later ↔
      ∃ lists, List.Forall₂ (RuleSource.Gives tree) sources lists ∧
        later = store.enterAll lists.flatten := by
  induction sources generalizing store with
  | nil => simp [loadAll, enterAll, eq_comm]
  | cons source rest ih =>
    simp only [List.forall₂_cons_left_iff]
    rcases source.gives_or_fails tree with ⟨rules, hgives⟩ | ⟨cause, hfails⟩
    · rw [loadAll_cons_of_gives hgives, ih]
      constructor
      · rintro ⟨lists, hrest, rfl⟩
        refine ⟨_, ⟨rules, lists, hgives, hrest, rfl⟩, ?_⟩
        rw [List.flatten_cons, enterAll_append]
      · rintro ⟨_, ⟨others, lists, hhead, hrest, rfl⟩, rfl⟩
        refine ⟨lists, hrest, ?_⟩
        rw [List.flatten_cons, enterAll_append, hgives.unique hhead]
    · -- Loading stops here, and no list of rules is one that this source gives.
      rw [loadAll_cons_of_fails hfails]
      constructor
      · intro h
        cases h
      · rintro ⟨_, ⟨rules, _, hhead, _⟩, _⟩
        exact absurd ⟨rules, hhead⟩ (RuleSource.not_gives_of_fails hfails)

theorem loadAll_append (store : RuleStore) (tree : FileTree) (sources more : List RuleSource) :
    store.loadAll tree (sources ++ more) =
      store.loadAll tree sources >>= fun store => store.loadAll tree more := by
  induction sources generalizing store with
  | nil => rfl
  | cons source rest ih =>
    rw [List.cons_append, loadAll, loadAll]
    split
    · exact ih _
    · rfl

end RuleStore

theorem FileTree.expandAll_eq_ok_iff {tree : FileTree} {patterns paths : List String} :
    tree.expandAll patterns = .ok paths ↔
      ∃ lists, List.Forall₂ (fun pattern list => tree.expand pattern = .ok list) patterns lists ∧
        paths = lists.flatten := by
  induction patterns generalizing paths with
  | nil => simp [expandAll, eq_comm]
  | cons pattern rest ih =>
    simp only [List.forall₂_cons_left_iff]
    rw [expandAll]
    cases hexpand : tree.expand pattern with
    | error cause => simp
    | ok list =>
      have hmap : (tree.expandAll rest).map (list ++ ·) = .ok paths ↔
          ∃ more, tree.expandAll rest = .ok more ∧ list ++ more = paths := by
        cases tree.expandAll rest with
        | error cause => simp [Except.map]
        | ok more => simp [Except.map]
      simp only [hmap, ih, Except.ok.injEq]
      constructor
      · rintro ⟨_, ⟨lists, hrest, rfl⟩, rfl⟩
        exact ⟨_, ⟨list, lists, rfl, hrest, rfl⟩, List.flatten_cons.symm⟩
      · rintro ⟨_, ⟨_, lists, rfl, hrest, rfl⟩, rfl⟩
        exact ⟨_, ⟨lists, hrest, rfl⟩, List.flatten_cons.symm⟩

/-! ## The sources of a plan -/

namespace FilterPlan

/-- The plan names the source: by a pattern that is expanded to its path, or as a single rule. -/
inductive Names (plan : FilterPlan) (tree : FileTree) : RuleSource → Prop where
  | lineFile {pattern path : String} {paths : List String} (hpattern : pattern ∈ plan.allLineFiles)
      (hexpand : tree.expand pattern = .ok paths) (hpath : path ∈ paths) :
      Names plan tree (.lineFile path)
  | xmlFile {pattern path : String} {paths : List String} (hpattern : pattern ∈ plan.allXmlFiles)
      (hexpand : tree.expand pattern = .ok paths) (hpath : path ∈ paths) :
      Names plan tree (.xmlFile path)
  | inline {line : String} (hline : line ∈ plan.allRules) : Names plan tree (.inline line)

/-- Every pattern of the plan can be expanded, and these are its sources in the order in which they
are loaded. -/
def HasSources (plan : FilterPlan) (tree : FileTree) (sources : List RuleSource) : Prop :=
  ∃ lineFiles xmlFiles, tree.expandAll plan.allLineFiles = .ok lineFiles ∧
    tree.expandAll plan.allXmlFiles = .ok xmlFiles ∧
    sources = lineFiles.map .lineFile ++ xmlFiles.map .xmlFile ++ plan.allRules.map .inline

variable {plan : FilterPlan} {tree : FileTree}

theorem mem_expandAll_iff {patterns paths : List String}
    (h : tree.expandAll patterns = .ok paths) {path : String} :
    path ∈ paths ↔ ∃ pattern ∈ patterns, ∃ list, tree.expand pattern = .ok list ∧ path ∈ list := by
  obtain ⟨lists, hlists, rfl⟩ := FileTree.expandAll_eq_ok_iff.mp h
  apply mem_flatten_of_forall₂ _ hlists
  intro pattern list other hlist hother
  exact Except.ok.inj (hlist.symm.trans hother)

theorem HasSources.mem_iff {sources : List RuleSource} (h : plan.HasSources tree sources)
    {source : RuleSource} : source ∈ sources ↔ plan.Names tree source := by
  obtain ⟨lineFiles, xmlFiles, hline, hxml, rfl⟩ := h
  simp only [List.mem_append, List.mem_map, mem_expandAll_iff hline, mem_expandAll_iff hxml]
  constructor
  · rintro ((⟨path, ⟨pattern, hpattern, list, hexpand, hpath⟩, rfl⟩ |
      ⟨path, ⟨pattern, hpattern, list, hexpand, hpath⟩, rfl⟩) | ⟨line, hmem, rfl⟩)
    · exact .lineFile hpattern hexpand hpath
    · exact .xmlFile hpattern hexpand hpath
    · exact .inline hmem
  · rintro (⟨hpattern, hexpand, hpath⟩ | ⟨hpattern, hexpand, hpath⟩ | hmem)
    · exact Or.inl (Or.inl ⟨_, ⟨_, hpattern, _, hexpand, hpath⟩, rfl⟩)
    · exact Or.inl (Or.inr ⟨_, ⟨_, hpattern, _, hexpand, hpath⟩, rfl⟩)
    · exact Or.inr ⟨_, hmem, rfl⟩

theorem exists_hasSources_iff :
    (∃ sources, plan.HasSources tree sources) ↔
      (∀ pattern ∈ plan.allLineFiles, ∃ list, tree.expand pattern = .ok list) ∧
        ∀ pattern ∈ plan.allXmlFiles, ∃ list, tree.expand pattern = .ok list := by
  have hexists {patterns : List String} : (∃ paths, tree.expandAll patterns = .ok paths) ↔
      ∀ pattern ∈ patterns, ∃ list, tree.expand pattern = .ok list := by
    rw [← exists_forall₂_iff]
    simp only [FileTree.expandAll_eq_ok_iff]
    constructor
    · rintro ⟨_, lists, hlists, -⟩
      exact ⟨lists, hlists⟩
    · rintro ⟨lists, hlists⟩
      exact ⟨_, lists, hlists, rfl⟩
  rw [← hexists, ← hexists]
  constructor
  · rintro ⟨_, lineFiles, xmlFiles, hline, hxml, -⟩
    exact ⟨⟨lineFiles, hline⟩, xmlFiles, hxml⟩
  · rintro ⟨⟨lineFiles, hline⟩, xmlFiles, hxml⟩
    exact ⟨_, lineFiles, xmlFiles, hline, hxml, rfl⟩

/-! ## The build -/

/-- The filter with the settings of the plan and these rules. -/
def filterOf (plan : FilterPlan) (rules : List Rule) : Filter where
  store := (RuleStore.empty plan.matching).enterAll rules
  unusedFunctions := plan.unusedFunctions
  reportsUnmatched := plan.reportsUnmatched

theorem loadStore_eq_ok_iff {store : RuleStore} :
    plan.loadStore tree = .ok store ↔
      ∃ sources, plan.HasSources tree sources ∧
        (RuleStore.empty plan.matching).loadAll tree sources = .ok store := by
  simp only [loadStore, bind_eq_ok_iff]
  constructor
  · rintro ⟨lineFiles, hline, first, hfirst, xmlFiles, hxml, second, hsecond, hthird⟩
    refine ⟨_, ⟨lineFiles, xmlFiles, hline, hxml, rfl⟩, ?_⟩
    simp only [RuleStore.loadAll_append, bind_eq_ok_iff]
    exact ⟨second, ⟨first, hfirst, hsecond⟩, hthird⟩
  · rintro ⟨sources, ⟨lineFiles, xmlFiles, hline, hxml, rfl⟩, hload⟩
    simp only [RuleStore.loadAll_append, bind_eq_ok_iff] at hload
    obtain ⟨second, ⟨first, hfirst, hsecond⟩, hthird⟩ := hload
    exact ⟨lineFiles, hline, first, hfirst, xmlFiles, hxml, second, hsecond, hthird⟩

/-- A build loads the store and puts the settings to it. -/
theorem build_eq_map (plan : FilterPlan) (tree : FileTree) :
    plan.build tree = (plan.loadStore tree).map fun store =>
      { store
        unusedFunctions := plan.unusedFunctions
        reportsUnmatched := plan.reportsUnmatched } := by
  rw [build]
  cases plan.loadStore tree with
  | error cause => rfl
  | ok store => rfl

/-- **What a build makes.** It succeeds if all patterns can be expanded and every source gives its
rules, and then the store holds these rules in the order of the sources. -/
theorem build_eq_ok_iff {filter : Filter} :
    plan.build tree = .ok filter ↔
      ∃ sources lists, plan.HasSources tree sources ∧
        List.Forall₂ (RuleSource.Gives tree) sources lists ∧
        filter = plan.filterOf lists.flatten := by
  have hbuild : plan.build tree = .ok filter ↔
      ∃ store, plan.loadStore tree = .ok store ∧ filter =
        { store
          unusedFunctions := plan.unusedFunctions
          reportsUnmatched := plan.reportsUnmatched } := by
    rw [build, bind_eq_ok_iff]
    apply exists_congr
    intro store
    apply and_congr_right
    intro _
    exact ⟨fun h => (Except.ok.inj h).symm, fun h => congrArg Except.ok h.symm⟩
  simp only [hbuild, loadStore_eq_ok_iff, RuleStore.loadAll_eq_ok_iff]
  constructor
  · rintro ⟨_, ⟨sources, hsources, lists, hlists, rfl⟩, rfl⟩
    exact ⟨sources, lists, hsources, hlists, rfl⟩
  · rintro ⟨sources, lists, hsources, hlists, rfl⟩
    exact ⟨_, ⟨sources, hsources, lists, hlists, rfl⟩, rfl⟩

/-- A build succeeds if all patterns can be expanded and every source that is named gives rules. -/
theorem isOk_build_iff :
    (∃ filter, plan.build tree = .ok filter) ↔
      ((∀ pattern ∈ plan.allLineFiles, ∃ list, tree.expand pattern = .ok list) ∧
        ∀ pattern ∈ plan.allXmlFiles, ∃ list, tree.expand pattern = .ok list) ∧
      ∀ source, plan.Names tree source → ∃ rules, source.Gives tree rules := by
  simp only [build_eq_ok_iff, ← exists_hasSources_iff]
  constructor
  · rintro ⟨_, sources, lists, hsources, hlists, -⟩
    refine ⟨⟨sources, hsources⟩, fun source hnames => ?_⟩
    exact exists_forall₂_iff.mp ⟨lists, hlists⟩ source (hsources.mem_iff.mpr hnames)
  · rintro ⟨⟨sources, hsources⟩, hgives⟩
    obtain ⟨lists, hlists⟩ := exists_forall₂_iff.mpr fun source hmem =>
      hgives source (hsources.mem_iff.mp hmem)
    exact ⟨_, sources, lists, hsources, hlists, rfl⟩

/-- The rules of a filter that was built are those that the named sources give. -/
theorem mem_rules_build_iff {filter : Filter} (h : plan.build tree = .ok filter) {rule : Rule} :
    rule ∈ filter.store.rules ↔
      ∃ source, plan.Names tree source ∧ ∃ rules, source.Gives tree rules ∧ rule ∈ rules := by
  obtain ⟨sources, lists, hsources, hlists, rfl⟩ := build_eq_ok_iff.mp h
  have hrules : (plan.filterOf lists.flatten).store.rules.toList = lists.flatten :=
    RuleStore.rules_enterAll _ _
  have hmem : rule ∈ lists.flatten ↔
      ∃ source ∈ sources, ∃ rules, source.Gives tree rules ∧ rule ∈ rules :=
    mem_flatten_of_forall₂ (fun h h' => h.unique h') hlists
  rw [← Array.mem_toList_iff, hrules, hmem]
  simp only [hsources.mem_iff]

theorem matching_build {filter : Filter} (h : plan.build tree = .ok filter) :
    filter.store.matching = plan.matching := by
  obtain ⟨sources, lists, -, -, rfl⟩ := build_eq_ok_iff.mp h
  exact RuleStore.matching_enterAll _ _

end FilterPlan

end FindingFilter
