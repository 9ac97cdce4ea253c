import FindingFilter.Proofs.FileGlob.Expansion
import FindingFilter.Proofs.Filter.Entries
import Mathlib.Data.List.Induction

/-!
# Filters — what a plan is told

A plan is told its sources and its settings one by one, in any order. Sources add up, kind by kind;
of what else is told, the last counts (`FilterPlan.last?`). So a plan depends on what was told of each
kind and not on how the kinds were mixed (`FilterPlan.ofSettings_eq`).

* **`FilterPlan.build_ofSettings`** — a build of what was told succeeds exactly if all patterns are
  patterns and all sources are loaded without a failure; then the store holds the rules of the rule files, the XML
  documents and the single rules, in this order and with all flags open, and the settings are those
  that were told last.
-/

namespace FindingFilter

variable {tree : FileTree}

/-! ## What sources and entries give -/

namespace RuleSource

theorem gives_inline_iff {line : String} {rules : List Rule} :
    (inline line).Gives tree rules ↔
      rules = [Rule.ofLine line] ∧ (Rule.ofLine line).check = .ok () := by
  constructor
  · rintro ⟨⟨⟩, haccepted⟩
    exact ⟨rfl, haccepted _ List.mem_cons_self⟩
  · rintro ⟨rfl, haccepted⟩
    exact ⟨.inline line, List.forall_mem_singleton.mpr haccepted⟩

theorem matched_of_gives {source : RuleSource} {rules : List Rule} (h : source.Gives tree rules) :
    ∀ rule ∈ rules, rule.matched = false := by
  cases h.holds with
  | lineFile h => exact RuleStore.Input.matched_of_holds h
  | xmlFile h => exact RuleStore.Input.matched_of_holds h
  | inline line => exact List.forall_mem_singleton.mpr (Rule.matched_ofLine line)

end RuleSource

namespace PlanEntry

theorem giveAll_inline_iff {lines : List String} {rules : List Rule} :
    GiveAll tree (lines.map .inline) rules ↔
      rules = lines.map Rule.ofLine ∧ ∀ line ∈ lines, (Rule.ofLine line).check = .ok () := by
  rw [giveAll_iff]
  simp only [yields_names_inline_iff, exists_eq_left]
  rw [Yields.map_iff]
  induction lines generalizing rules with
  | nil =>
    constructor
    · rintro ⟨⟩
      exact ⟨rfl, by simp⟩
    · rintro ⟨rfl, -⟩
      exact .nil
  | cons line lines ih =>
    simp only [Yields.cons_iff, ih, RuleSource.gives_inline_iff, List.map_cons,
      List.forall_mem_cons]
    constructor
    · rintro ⟨_, _, ⟨rfl, hline⟩, ⟨rfl, hlines⟩, rfl⟩
      exact ⟨rfl, hline, hlines⟩
    · rintro ⟨rfl, hline, hlines⟩
      exact ⟨_, _, ⟨rfl, hline⟩, ⟨rfl, hlines⟩, rfl⟩

/-- The rules that files give, by way of the paths of these files. -/
theorem exists_expands_of_giveAll {kind : FileKind} {texts : List String} {rules : List Rule}
    (h : GiveAll tree (texts.map (.files kind)) rules) :
    ∃ paths, Yields tree.Expands texts paths ∧
      Yields (fun path => (kind.source path).Gives tree) paths rules := by
  obtain ⟨paths, hpaths, hrules⟩ := giveAll_files_iff.mp h
  rw [FileTree.expandAll_eq_ok_iff_yields, Yields.iff_forall₂] at hpaths
  obtain ⟨lists, hlists, rfl⟩ := hpaths
  refine ⟨_, Yields.iff_forall₂.mpr ⟨lists, ?_, rfl⟩, Yields.map_iff.mp hrules⟩
  exact hlists.imp fun text list => FileTree.expands_of_expand

theorem matched_of_giveAll {entries : List PlanEntry} {rules : List Rule}
    (h : GiveAll tree entries rules) : ∀ rule ∈ rules, rule.matched = false := by
  obtain ⟨sources, -, hgives⟩ := giveAll_iff.mp h
  clear h
  induction hgives with
  | nil => exact fun rule hmem => absurd hmem List.not_mem_nil
  | cons hsource _ ih => exact List.forall_mem_append.mpr ⟨RuleSource.matched_of_gives hsource, ih⟩

end PlanEntry

namespace FilterPlan

/-! ## What was told of each kind -/

namespace Setting

def config? : Setting → Option Config
  | .config own => some own
  | _ => none

def lineFile? : Setting → Option String
  | .lineFile path => some path
  | _ => none

def xmlFile? : Setting → Option String
  | .xmlFile path => some path
  | _ => none

/-- The single rules that are told. -/
def ruleLines : Setting → List String
  | .rules lines => lines
  | _ => []

def matching? : Setting → Option FileMatching
  | .matching mode => some mode
  | _ => none

def unusedFunctions? : Setting → Option Bool
  | .unusedFunctions isOn => some isOn
  | _ => none

def reportsUnmatched? : Setting → Option Bool
  | .reportsUnmatched isOn => some isOn
  | _ => none

end Setting

/-- What was told last of one kind, if anything was. -/
def last? {α : Type} (told? : Setting → Option α) (settings : List Setting) : Option α :=
  (settings.filterMap told?).getLast?

/-- **A plan is what was told of each kind**, in whatever order the kinds were mixed. -/
theorem ofSettings_eq (settings : List Setting) :
    ofSettings settings =
      { config := (last? Setting.config? settings).getD {}
        lineFiles := settings.filterMap Setting.lineFile?
        xmlFiles := settings.filterMap Setting.xmlFile?
        rules := settings.flatMap Setting.ruleLines
        matching? := last? Setting.matching? settings
        unusedFunctions? := last? Setting.unusedFunctions? settings
        reportsUnmatched? := last? Setting.reportsUnmatched? settings } := by
  induction settings using List.reverseRecOn with
  | nil => rfl
  | append_singleton settings setting ih =>
    have hset : ofSettings (settings ++ [setting]) = (ofSettings settings).set setting :=
      List.foldl_append
    rw [hset, ih]
    -- One kind of setting changes one field, and no other field is told by it.
    cases setting <;>
      simp [set, last?, Setting.config?, Setting.lineFile?, Setting.xmlFile?, Setting.ruleLines,
        Setting.matching?, Setting.unusedFunctions?, Setting.reportsUnmatched?]

/-! ## The build -/

variable {plan : FilterPlan}

/-- All that the texts name is loaded without a failure: every directory that a text looks into can be
listed, and every file that it is expanded to gives rules. A directory that cannot be listed is a
failure of the source that the text stands for, and is told with the text as its origin. -/
def LeadToRules (tree : FileTree) (kind : FileKind) (texts : List String) : Prop :=
  ∀ text ∈ texts, tree.IsListable text ∧
    ∀ paths, tree.expand text = .ok paths → ∀ path ∈ paths,
      ∃ rules, (kind.source path).Gives tree rules

/-- The sources that a plan names are files that its texts lead to, and its single rules. -/
theorem forall_gives_iff :
    (∀ source, plan.Names tree source → ∃ rules, source.Gives tree rules) ↔
      (∀ text ∈ plan.allLineFiles, ∀ paths, tree.expand text = .ok paths → ∀ path ∈ paths,
        ∃ rules, (FileKind.line.source path).Gives tree rules) ∧
      (∀ text ∈ plan.allXmlFiles, ∀ paths, tree.expand text = .ok paths → ∀ path ∈ paths,
        ∃ rules, (FileKind.xml.source path).Gives tree rules) ∧
      ∀ line ∈ plan.allRules, (Rule.ofLine line).check = .ok () := by
  constructor
  · intro h
    refine ⟨?_, ?_, ?_⟩
    · exact fun text hmem paths hexpand path hpath => h _ (.lineFile hmem hexpand hpath)
    · exact fun text hmem paths hexpand path hpath => h _ (.xmlFile hmem hexpand hpath)
    · intro line hmem
      obtain ⟨_, hgives⟩ := h _ (.inline hmem)
      exact (RuleSource.gives_inline_iff.mp hgives).2
  · rintro ⟨hline, hxml, hrules⟩ source (⟨hmem, hexpand, hpath⟩ | ⟨hmem, hexpand, hpath⟩ | hmem)
    · exact hline _ hmem _ hexpand _ hpath
    · exact hxml _ hmem _ hexpand _ hpath
    · exact ⟨_, RuleSource.gives_inline_iff.mpr ⟨rfl, hrules _ hmem⟩⟩

theorem isOk_build_iff_forall :
    (∃ filter, plan.build tree = .ok filter) ↔
      (∀ text ∈ plan.allLineFiles ++ plan.allXmlFiles, FileGlob.IsPattern text) ∧
        LeadToRules tree .line plan.allLineFiles ∧ LeadToRules tree .xml plan.allXmlFiles ∧
        ∀ line ∈ plan.allRules, (Rule.ofLine line).check = .ok () := by
  simp only [isOk_build_iff, FileTree.exists_expand_iff, forall_gives_iff, LeadToRules,
    List.forall_mem_append, forall_and]
  constructor
  · rintro ⟨⟨⟨hline, hlisted⟩, hxml, hlisted'⟩, hgives, hgives', hrules⟩
    exact ⟨⟨hline, hxml⟩, ⟨hlisted, hgives⟩, ⟨hlisted', hgives'⟩, hrules⟩
  · rintro ⟨⟨hline, hxml⟩, ⟨hlisted, hgives⟩, ⟨hlisted', hgives'⟩, hrules⟩
    exact ⟨⟨⟨hline, hlisted⟩, hxml, hlisted'⟩, hgives, hgives', hrules⟩

/-- What a filter holds: the rules of the files of each kind, in the order of the texts that name
them and of the paths that a text names, then the single rules; no flag is set. -/
def IsMadeOf (tree : FileTree) (matching : FileMatching) (lineFiles xmlFiles lines : List String)
    (store : RuleStore) : Prop :=
  ∃ linePaths lineRules xmlPaths xmlRules,
    Yields tree.Expands lineFiles linePaths ∧
    Yields (fun path => (RuleSource.lineFile path).Gives tree) linePaths lineRules ∧
    Yields tree.Expands xmlFiles xmlPaths ∧
    Yields (fun path => (RuleSource.xmlFile path).Gives tree) xmlPaths xmlRules ∧
    (RuleStore.empty matching).IsExtendedBy (lineRules ++ xmlRules ++ lines.map Rule.ofLine) store

theorem isMadeOf_of_build {filter : Filter} (h : plan.build tree = .ok filter) :
    IsMadeOf tree plan.matching plan.allLineFiles plan.allXmlFiles plan.allRules filter.store := by
  obtain ⟨rules, hgive, rfl⟩ := build_eq_ok_iff_entries.mp h
  have hopen := PlanEntry.matched_of_giveAll hgive
  obtain ⟨_, inlineRules, hfiles, hinline, rfl⟩ := Yields.append_iff.mp hgive
  obtain ⟨lineRules, xmlRules, hline, hxml, rfl⟩ := Yields.append_iff.mp hfiles
  obtain ⟨linePaths, hlinePaths, hlineRules⟩ := PlanEntry.exists_expands_of_giveAll hline
  obtain ⟨xmlPaths, hxmlPaths, hxmlRules⟩ := PlanEntry.exists_expands_of_giveAll hxml
  obtain ⟨rfl, -⟩ := PlanEntry.giveAll_inline_iff.mp hinline
  exact ⟨linePaths, lineRules, xmlPaths, xmlRules, hlinePaths, hlineRules, hxmlPaths, hxmlRules,
    RuleStore.isExtendedBy_enterAll hopen _⟩

/-- **What a build makes of what was told.** The configuration that was told last names its sources
in front of the others, kind by kind. The build succeeds if and only if all texts with wildcards are
patterns, all that they name is loaded without a failure and all single rules are accepted. Then the
store is made of these in this order, for the way of matching that was told last, or for that of the
configuration. -/
theorem build_ofSettings (settings : List Setting) (tree : FileTree) :
    let config := (last? Setting.config? settings).getD {}
    let lineFiles := config.sources.files ++ settings.filterMap Setting.lineFile?
    let xmlFiles := config.sources.xml ++ settings.filterMap Setting.xmlFile?
    let lines := config.sources.rules ++ settings.flatMap Setting.ruleLines
    let matching := (last? Setting.matching? settings).getD config.sources.matching
    ((∃ filter, (ofSettings settings).build tree = .ok filter) ↔
        (∀ text ∈ lineFiles ++ xmlFiles, FileGlob.IsPattern text) ∧
          LeadToRules tree .line lineFiles ∧ LeadToRules tree .xml xmlFiles ∧
          ∀ line ∈ lines, (Rule.ofLine line).check = .ok ()) ∧
      ∀ filter, (ofSettings settings).build tree = .ok filter →
        IsMadeOf tree matching lineFiles xmlFiles lines filter.store ∧
          filter.unusedFunctions =
            (last? Setting.unusedFunctions? settings).getD config.report.unusedFunctions ∧
          filter.reportsUnmatched =
            (last? Setting.reportsUnmatched? settings).getD config.report.unmatched := by
  intro config lineFiles xmlFiles lines matching
  have hplan := ofSettings_eq settings
  have hline : (ofSettings settings).allLineFiles = lineFiles := by rw [hplan]; rfl
  have hxml : (ofSettings settings).allXmlFiles = xmlFiles := by rw [hplan]; rfl
  have hlines : (ofSettings settings).allRules = lines := by rw [hplan]; rfl
  have hmatching : (ofSettings settings).matching = matching := by rw [hplan]; rfl
  refine ⟨?_, fun filter hbuild => ⟨?_, ?_, ?_⟩⟩
  · rw [isOk_build_iff_forall, hline, hxml, hlines]
  · have hmade := isMadeOf_of_build hbuild
    rwa [hmatching, hline, hxml, hlines] at hmade
  · obtain ⟨_, -, rfl⟩ := build_eq_ok_iff_entries.mp hbuild
    rw [filterOf, hplan]
    rfl
  · obtain ⟨_, -, rfl⟩ := build_eq_ok_iff_entries.mp hbuild
    rw [filterOf, hplan]
    rfl

/-- The configuration and the way of matching are told twice, in between the sources, and the pattern
names two files. -/
theorem build_ofSettings_mixed :
    let tree : FileTree :=
      { entries := [(["own.txt"], .file "three".toUTF8), (["r1.txt"], .file "one".toUTF8),
          (["r2.txt"], .file "two".toUTF8)] }
    let settings : List Setting :=
      [.rules ["five"], .matching .literal, .config { sources := { files := ["gone.txt"] } },
        .lineFile "own.txt", .matching .glob,
        .config { sources := { files := ["r*"], rules := ["four"] } }]
    ∃ filter, (ofSettings settings).build tree = .ok filter ∧
      IsMadeOf tree .glob ["r*", "own.txt"] [] ["four", "five"] filter.store ∧
      filter.store.rules.toList.map (·.id) = ["one", "two", "three", "four", "five"] := by
  intro tree settings
  have hlisting : tree.listing "." =
      .ok [⟨"own.txt", false⟩, ⟨"r1.txt", false⟩, ⟨"r2.txt", false⟩] := by decide +kernel
  have hfollow : FileGlob.follow tree false [.names [.char 'r', .anyRun]] ⟨".", true⟩ =
      ["r1.txt", "r2.txt"].map .ok := by
    rw [FileGlob.follow, FileGlob.inside, if_pos rfl,
      FileGlob.childrenOf_of_pairwise hlisting (by decide)]
    decide +kernel
  have hexpand : tree.expand "r*" = .ok ["r1.txt", "r2.txt"] := by
    have hglob : FileGlob.ofText "r*" = .ok ⟨false, [.names [.char 'r', .anyRun]], false⟩ :=
      eq_ok_of_toOption (by decide +kernel)
    have hstart : FileGlob.placeAt tree "." = ⟨".", true⟩ := by decide +kernel
    have hitems : FileGlob.items ⟨false, [.names [.char 'r', .anyRun]], false⟩ tree =
        ["r1.txt", "r2.txt"].map .ok := by
      rw [← hfollow, ← hstart]
      rfl
    exact FileTree.expand_of_pairwise (by decide) hglob hitems (by decide +kernel)
  have hids : ((ofSettings settings).build tree).toOption.map (·.store.rules.toList.map (·.id)) =
      some ["one", "two", "three", "four", "five"] := by
    have hfiles : tree.expandAll (ofSettings settings).allLineFiles =
        .ok ["r1.txt", "r2.txt", "own.txt"] := by
      show tree.expandAll ["r*", "own.txt"] = _
      rw [FileTree.expandAll, hexpand]
      rfl
    rw [build, loadStore, hfiles]
    decide +kernel
  obtain ⟨filter, hfilter, hrules⟩ := Option.map_eq_some_iff.mp hids
  have hbuild := eq_ok_of_toOption hfilter
  exact ⟨filter, hbuild, ((build_ofSettings settings tree).2 filter hbuild).1, hrules⟩

end FilterPlan

end FindingFilter
