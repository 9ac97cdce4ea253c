import FindingFilter.Proofs.Filter.Sources

/-!
# Filters — the entries of a plan

What a build makes of a plan, entry by entry. An entry is a path or a pattern that files are named by,
or a single rule. It names sources of its own (`PlanEntry.Names`) and gives the rules of these
(`PlanEntry.Gives`), whatever the other entries are.

* **`FilterPlan.build_eq_ok_iff_entries`** — a build puts the rules of the entries one behind the
  other, and succeeds if every entry gives its rules;
* **`RuleStore.loadAll_of_first_failure`** — of all sources, the first that fails is the one that is
  told.

Both rest on `Yields`: the entries yield sources and the sources yield rules, in two rounds, which is
the same as if each entry yielded its rules at once (`Yields.comp_iff`).
-/

namespace FindingFilter

/-! ## Lists that are put together -/

/-- Each element of a list yields a list, and these are put one behind the other. -/
inductive Yields {α β : Type} (R : α → List β → Prop) : List α → List β → Prop where
  | nil : Yields R [] []
  | cons {a : α} {as : List α} {bs cs : List β} (h : R a bs) (hrest : Yields R as cs) :
      Yields R (a :: as) (bs ++ cs)

namespace Yields

variable {α β γ : Type} {R : α → List β → Prop} {S : β → List γ → Prop}

theorem iff_forall₂ {as : List α} {bs : List β} :
    Yields R as bs ↔ ∃ lists, List.Forall₂ R as lists ∧ bs = lists.flatten := by
  constructor
  · intro h
    induction h with
    | nil => exact ⟨[], .nil, rfl⟩
    | cons hhead _ ih =>
      obtain ⟨lists, hlists, rfl⟩ := ih
      exact ⟨_ :: lists, .cons hhead hlists, rfl⟩
  · rintro ⟨lists, hlists, rfl⟩
    induction hlists with
    | nil => exact .nil
    | cons hhead _ ih => exact .cons hhead ih

theorem exists_iff {as : List α} : (∃ bs, Yields R as bs) ↔ ∀ a ∈ as, ∃ bs, R a bs := by
  simp only [iff_forall₂, ← exists_forall₂_iff]
  constructor
  · rintro ⟨_, lists, hlists, -⟩
    exact ⟨lists, hlists⟩
  · rintro ⟨lists, hlists⟩
    exact ⟨_, lists, hlists, rfl⟩

theorem cons_iff {a : α} {as : List α} {cs : List β} :
    Yields R (a :: as) cs ↔ ∃ bs rest, R a bs ∧ Yields R as rest ∧ cs = bs ++ rest := by
  constructor
  · rintro (_ | ⟨h, hrest⟩)
    exact ⟨_, _, h, hrest, rfl⟩
  · rintro ⟨bs, rest, h, hrest, rfl⟩
    exact .cons h hrest

theorem singleton_iff {a : α} {bs : List β} : Yields R [a] bs ↔ R a bs := by
  rw [cons_iff]
  constructor
  · rintro ⟨_, _, h, ⟨⟩, rfl⟩
    rwa [List.append_nil]
  · exact fun h => ⟨bs, [], h, .nil, (List.append_nil bs).symm⟩

theorem append_iff {as more : List α} {cs : List β} :
    Yields R (as ++ more) cs ↔ ∃ bs rest, Yields R as bs ∧ Yields R more rest ∧ cs = bs ++ rest := by
  induction as generalizing cs with
  | nil =>
    constructor
    · exact fun h => ⟨[], cs, .nil, h, rfl⟩
    · rintro ⟨_, rest, _ | _, hmore, rfl⟩
      exact hmore
  | cons a as ih =>
    simp only [List.cons_append, cons_iff, ih]
    constructor
    · rintro ⟨bs, _, h, ⟨ds, rest, has, hmore, rfl⟩, rfl⟩
      exact ⟨_, rest, ⟨bs, ds, h, has, rfl⟩, hmore, (List.append_assoc ..).symm⟩
    · rintro ⟨_, rest, ⟨bs, ds, h, has, rfl⟩, hmore, rfl⟩
      exact ⟨bs, _, h, ⟨ds, rest, has, hmore, rfl⟩, List.append_assoc ..⟩

theorem congr {R' : α → List β → Prop} (h : ∀ a bs, R a bs ↔ R' a bs) {as : List α} {bs : List β} :
    Yields R as bs ↔ Yields R' as bs := by
  have heq : R = R' := by
    funext a bs
    exact propext (h a bs)
  rw [heq]

theorem map_iff {δ : Type} {f : δ → α} {ds : List δ} {bs : List β} :
    Yields R (ds.map f) bs ↔ Yields (fun d => R (f d)) ds bs := by
  simp only [iff_forall₂, List.forall₂_map_left_iff]

/-- Two rounds at once, and one after the other. -/
theorem comp_iff {as : List α} {cs : List γ} :
    Yields (fun a cs => ∃ bs, R a bs ∧ Yields S bs cs) as cs ↔
      ∃ bs, Yields R as bs ∧ Yields S bs cs := by
  induction as generalizing cs with
  | nil =>
    constructor
    · rintro ⟨⟩
      exact ⟨[], .nil, .nil⟩
    · rintro ⟨_, ⟨⟩, ⟨⟩⟩
      exact .nil
  | cons a as ih =>
    -- What the second round makes of the whole splits where the first round's parts meet.
    simp only [cons_iff, ih]
    constructor
    · rintro ⟨bs, ds, ⟨es, h, hes⟩, ⟨rest, has, hrest⟩, rfl⟩
      exact ⟨es ++ rest, ⟨es, rest, h, has, rfl⟩, append_iff.mpr ⟨bs, ds, hes, hrest, rfl⟩⟩
    · rintro ⟨_, ⟨es, rest, h, has, rfl⟩, hcs⟩
      obtain ⟨bs, ds, hes, hrest, rfl⟩ := append_iff.mp hcs
      exact ⟨bs, ds, ⟨es, h, hes⟩, ⟨rest, has, hrest⟩, rfl⟩

/-- One element for each: the result is the image of the list. -/
theorem eq_map_iff {f : α → β} {as : List α} {bs : List β} :
    Yields (fun a bs => bs = [f a]) as bs ↔ bs = as.map f := by
  induction as generalizing bs with
  | nil =>
    constructor
    · rintro ⟨⟩
      rfl
    · rintro rfl
      exact .nil
  | cons a as ih =>
    simp only [cons_iff, ih]
    constructor
    · rintro ⟨_, _, rfl, rfl, rfl⟩
      rfl
    · rintro rfl
      exact ⟨_, _, rfl, rfl, rfl⟩

end Yields

theorem FileTree.expandAll_eq_ok_iff_yields {tree : FileTree} {patterns paths : List String} :
    tree.expandAll patterns = .ok paths ↔
      Yields (fun pattern list => tree.expand pattern = .ok list) patterns paths := by
  rw [expandAll_eq_ok_iff, Yields.iff_forall₂]

/-! ## Entries of a plan -/

/-- The two kinds of files that rules are read from. -/
inductive FileKind where
  | line
  | xml
  deriving DecidableEq, Repr

namespace FileKind

def source (kind : FileKind) (path : String) : RuleSource :=
  match kind with
  | .line => .lineFile path
  | .xml => .xmlFile path

theorem origin_source (kind : FileKind) (path : String) : (kind.source path).origin = path := by
  cases kind <;> rfl

end FileKind

/-- One entry of a plan: a path or a pattern that files are named by, or a single rule. -/
inductive PlanEntry where
  | files (kind : FileKind) (pattern : String)
  | inline (rule : String)
  deriving DecidableEq, Repr

namespace PlanEntry

/-- The sources that the entry names. -/
def sources (tree : FileTree) : PlanEntry → Except BuildError (List RuleSource)
  | .files kind pattern =>
    match tree.expand pattern with
    | .ok paths => .ok (paths.map kind.source)
    | .error cause => .error (.ofExpansion pattern cause)
  | .inline rule => .ok [.inline rule]

/-- The entry can be expanded, and these are the sources that it names. -/
def Names (tree : FileTree) (entry : PlanEntry) (sources : List RuleSource) : Prop :=
  entry.sources tree = .ok sources

/-- The sources that the entry names give these rules, in order. -/
def Gives (tree : FileTree) (entry : PlanEntry) (rules : List Rule) : Prop :=
  ∃ sources, entry.Names tree sources ∧ Yields (RuleSource.Gives tree) sources rules

/-- All entries give their rules, and these are they, in order. -/
def GiveAll (tree : FileTree) (entries : List PlanEntry) (rules : List Rule) : Prop :=
  Yields (Gives tree) entries rules

variable {tree : FileTree}

theorem giveAll_iff {entries : List PlanEntry} {rules : List Rule} :
    GiveAll tree entries rules ↔
      ∃ sources, Yields (Names tree) entries sources ∧
        Yields (RuleSource.Gives tree) sources rules :=
  Yields.comp_iff

theorem names_files_iff {kind : FileKind} {pattern : String} {sources : List RuleSource} :
    (files kind pattern).Names tree sources ↔
      ∃ paths, tree.expand pattern = .ok paths ∧
        Yields (fun path list => list = [kind.source path]) paths sources := by
  simp only [Names, PlanEntry.sources, Yields.eq_map_iff]
  cases tree.expand pattern with
  | error cause => simp
  | ok paths => simp [eq_comm]

theorem names_inline_iff {rule : String} {sources : List RuleSource} :
    (inline rule).Names tree sources ↔ sources = [.inline rule] := by
  rw [Names, PlanEntry.sources, Except.ok.injEq, eq_comm]

theorem yields_names_files_iff {kind : FileKind} {patterns : List String}
    {sources : List RuleSource} :
    Yields (Names tree) (patterns.map (files kind)) sources ↔
      ∃ paths, tree.expandAll patterns = .ok paths ∧ sources = paths.map kind.source := by
  rw [Yields.map_iff, Yields.congr fun pattern sources => names_files_iff, Yields.comp_iff]
  simp only [Yields.eq_map_iff, FileTree.expandAll_eq_ok_iff_yields]

theorem yields_names_inline_iff {rules : List String} {sources : List RuleSource} :
    Yields (Names tree) (rules.map inline) sources ↔ sources = rules.map .inline := by
  rw [Yields.map_iff, Yields.congr fun rule sources => names_inline_iff, Yields.eq_map_iff]

theorem giveAll_files_iff {kind : FileKind} {patterns : List String} {rules : List Rule} :
    GiveAll tree (patterns.map (files kind)) rules ↔
      ∃ paths, tree.expandAll patterns = .ok paths ∧
        Yields (RuleSource.Gives tree) (paths.map kind.source) rules := by
  simp only [giveAll_iff, yields_names_files_iff]
  constructor
  · rintro ⟨_, ⟨paths, hpaths, rfl⟩, hgives⟩
    exact ⟨paths, hpaths, hgives⟩
  · rintro ⟨paths, hpaths, hgives⟩
    exact ⟨_, ⟨paths, hpaths, rfl⟩, hgives⟩

/-- An entry that is expanded to itself gives what the file gives. -/
theorem gives_files_of_expand {kind : FileKind} {place : String}
    (hexpand : tree.expand place = .ok [place]) {rules : List Rule} :
    (files kind place).Gives tree rules ↔ (kind.source place).Gives tree rules := by
  have hnames (sources : List RuleSource) :
      (files kind place).Names tree sources ↔ sources = [kind.source place] := by
    rw [Names, PlanEntry.sources, hexpand]
    simp [eq_comm]
  simp only [Gives, hnames, exists_eq_left, Yields.singleton_iff]

end PlanEntry

namespace RuleStore

variable {tree : FileTree}

/-- Loading stops at the first source that fails. -/
theorem loadAll_of_first_failure {front : List RuleSource} {rules : List Rule}
    (hfront : Yields (RuleSource.Gives tree) front rules) {source : RuleSource} {cause : LoadError}
    (hfails : source.Fails tree cause) (rest : List RuleSource) (store : RuleStore) :
    store.loadAll tree (front ++ source :: rest) = .error (.source source.origin cause) := by
  obtain ⟨lists, hlists, rfl⟩ := Yields.iff_forall₂.mp hfront
  rw [loadAll_append, loadAll_eq_ok_iff.mpr ⟨lists, hlists, rfl⟩]
  exact loadAll_cons_of_fails hfails rest

end RuleStore

namespace FilterPlan

variable {plan : FilterPlan} {tree : FileTree}

/-- The entries of the plan in the order in which a build takes them. -/
def entries (plan : FilterPlan) : List PlanEntry :=
  plan.allLineFiles.map (.files .line) ++ plan.allXmlFiles.map (.files .xml) ++
    plan.allRules.map .inline

theorem hasSources_iff {sources : List RuleSource} :
    plan.HasSources tree sources ↔
      Yields (PlanEntry.Names tree) plan.entries sources := by
  simp only [HasSources, entries, Yields.append_iff, PlanEntry.yields_names_files_iff,
    PlanEntry.yields_names_inline_iff]
  constructor
  · rintro ⟨lineFiles, xmlFiles, hline, hxml, rfl⟩
    exact ⟨_, _, ⟨_, _, ⟨lineFiles, hline, rfl⟩, ⟨xmlFiles, hxml, rfl⟩, rfl⟩, rfl, rfl⟩
  · rintro ⟨_, _, ⟨_, _, ⟨lineFiles, hline, rfl⟩, ⟨xmlFiles, hxml, rfl⟩, rfl⟩, rfl, rfl⟩
    exact ⟨lineFiles, xmlFiles, hline, hxml, rfl⟩

/-- **What a build makes of the entries of a plan.** -/
theorem build_eq_ok_iff_entries {filter : Filter} :
    plan.build tree = .ok filter ↔
      ∃ rules, PlanEntry.GiveAll tree plan.entries rules ∧ filter = plan.filterOf rules := by
  simp only [build_eq_ok_iff, hasSources_iff, PlanEntry.giveAll_iff, Yields.iff_forall₂]
  constructor
  · rintro ⟨sources, lists, hsources, hlists, rfl⟩
    exact ⟨_, ⟨sources, hsources, lists, hlists, rfl⟩, rfl⟩
  · rintro ⟨_, ⟨sources, hsources, lists, hlists, rfl⟩, rfl⟩
    exact ⟨sources, lists, hsources, hlists, rfl⟩

end FilterPlan

end FindingFilter
