import FindingFilter.Proofs.FileGlob.Expansion
import FindingFilter.Proofs.Filter.Entries

/-!
# Filters — which failure a build tells

A build takes the entries of a plan in three rounds (`FilterPlan.rounds`): rule files, XML documents,
single rules. In each round all entries are expanded before the first source is loaded. So a build
does not meet the failures of a plan in the order of the entries: an entry that comes first and fails
when it is loaded is overtaken by an entry of its round that cannot be expanded (`IsOvertaken`), be it
that its text is no pattern or that a directory cannot be listed.

* **`PlanEntry.gives_or_fails`** — every entry gives its rules or fails, and says why;
* **`loadRound_of_fails`**, **`loadRound_of_isOvertaken`** — what a round with a failing entry comes
  to;
* **`FilterPlan.build_of_isFirstFailure`** — if an entry fails, there is a first one, and the build
  tells of that one exactly if it is not overtaken; otherwise it tells of the entry that overtakes.

That a later pattern can be told instead of an earlier file is
`FilterPlan.build_tells_later_pattern`.
-/

namespace FindingFilter

/-! ## Entries that fail -/

namespace PlanEntry

variable {tree : FileTree} {entry : PlanEntry} {error : BuildError}

/-- The entry cannot be expanded, and this is what is wrong with it. -/
inductive IsUnexpanded (tree : FileTree) : PlanEntry → BuildError → Prop where
  | files {kind : FileKind} {text : String} {error : FileGlob.ExpansionError}
      (h : tree.CannotExpand text error) :
      IsUnexpanded tree (.files kind text) (.ofExpansion text error)

theorem sources_eq_error_iff : entry.sources tree = .error error ↔ entry.IsUnexpanded tree error := by
  constructor
  · intro h
    cases entry with
    | files kind text =>
      rw [PlanEntry.sources] at h
      split at h
      · cases h
      next hexpand =>
        cases h
        exact .files (FileTree.expand_eq_error_iff.mp hexpand)
    | inline rule => cases h
  · rintro ⟨hcannot⟩
    rw [PlanEntry.sources, FileTree.expand_eq_error_iff.mpr hcannot]

/-- The entry gives no rules, and this is what is wrong with it: it cannot be expanded, or one of the
sources that it names fails and all in front of that one give their rules. -/
inductive Fails (tree : FileTree) : PlanEntry → BuildError → Prop where
  | unexpanded {entry : PlanEntry} {error : BuildError} (h : entry.IsUnexpanded tree error) :
      Fails tree entry error
  | source {entry : PlanEntry} {front rest : List RuleSource} {source : RuleSource}
      {cause : LoadError} (hnames : entry.Names tree (front ++ source :: rest))
      (hfront : ∀ other ∈ front, ∃ rules, other.Gives tree rules)
      (hfails : source.Fails tree cause) : Fails tree entry (.source source.origin cause)

/-- An entry that is expanded to itself fails as the file does. -/
theorem fails_files_of_expand {kind : FileKind} {place : String} {cause : LoadError}
    (hexpand : tree.expand place = .ok [place]) (hfails : (kind.source place).Fails tree cause) :
    (files kind place).Fails tree (.source place cause) := by
  have hnames : (files kind place).Names tree ([] ++ kind.source place :: []) := by
    rw [Names, PlanEntry.sources, hexpand]
    rfl
  have hfirst := Fails.source hnames (fun other hmem => absurd hmem List.not_mem_nil) hfails
  rwa [FileKind.origin_source] at hfirst

/-- **Every entry gives its rules or fails.** -/
theorem gives_or_fails (tree : FileTree) (entry : PlanEntry) :
    (∃ rules, entry.Gives tree rules) ∨ ∃ error, entry.Fails tree error := by
  cases hsources : entry.sources tree with
  | error cause => exact Or.inr ⟨_, .unexpanded (sources_eq_error_iff.mp hsources)⟩
  | ok sources =>
    rcases forall_or_exists_first (fun source => ∃ rules, source.Gives tree rules) sources with
      hall | ⟨front, source, rest, rfl, hfront, hnone⟩
    · obtain ⟨rules, hrules⟩ := Yields.exists_iff.mpr hall
      exact Or.inl ⟨rules, sources, hsources, hrules⟩
    · obtain ⟨cause, hfails⟩ := (source.gives_or_fails tree).resolve_left hnone
      exact Or.inr ⟨_, .source hsources hfront hfails⟩

theorem not_gives_of_fails (h : entry.Fails tree error) : ¬ ∃ rules, entry.Gives tree rules := by
  rintro ⟨rules, sources, hsources, hrules⟩
  cases h with
  | unexpanded h =>
    rw [Names, sources_eq_error_iff.mpr h] at hsources
    cases hsources
  | @source front rest source cause hnames hfront hfails =>
    -- The entry names one list of sources only, and all of these would give rules.
    obtain rfl : front ++ source :: rest = sources := Except.ok.inj (hnames.symm.trans hsources)
    have hall := Yields.exists_iff.mp ⟨rules, hrules⟩
    exact RuleSource.not_gives_of_fails hfails (hall source (by simp))

theorem exists_names_of_gives (h : ∃ rules, entry.Gives tree rules) :
    ∃ sources, entry.Names tree sources := by
  obtain ⟨_, sources, hnames, -⟩ := h
  exact ⟨sources, hnames⟩

/-- A failure of the entry comes too late: it can be expanded itself, and of the entries `rest` behind
it in the same round the first that cannot be is told with this error. -/
structure IsOvertaken (tree : FileTree) (entry : PlanEntry) (rest : List PlanEntry)
    (late : BuildError) : Prop where
  isExpanded : ∃ sources, entry.Names tree sources
  isFirst : ∃ between other behind, rest = between ++ other :: behind ∧
    (∀ entry ∈ between, ∃ sources, entry.Names tree sources) ∧ other.IsUnexpanded tree late

/-! ## Rounds -/

/-- The sources that the entries of a round name, in order. -/
def sourcesOfAll (tree : FileTree) : List PlanEntry → Except BuildError (List RuleSource)
  | [] => .ok []
  | entry :: rest =>
    match entry.sources tree with
    | .error cause => .error cause
    | .ok sources => (sourcesOfAll tree rest).map (sources ++ ·)

theorem sourcesOfAll_files (tree : FileTree) (kind : FileKind) (patterns : List String) :
    sourcesOfAll tree (patterns.map (files kind)) =
      (tree.expandAll patterns).map (·.map kind.source) := by
  induction patterns with
  | nil => rfl
  | cons pattern patterns ih =>
    rw [List.map_cons, sourcesOfAll, sources, FileTree.expandAll, ih]
    cases tree.expand pattern with
    | error cause => rfl
    | ok paths =>
      cases tree.expandAll patterns with
      | error cause => rfl
      | ok others => simp [Except.map]

theorem sourcesOfAll_inline (tree : FileTree) (rules : List String) :
    sourcesOfAll tree (rules.map inline) = .ok (rules.map .inline) := by
  induction rules with
  | nil => rfl
  | cons rule rules ih =>
    rw [List.map_cons, sourcesOfAll, ih]
    rfl

/-- All sources are named in front of the first entry that cannot be expanded. -/
theorem sourcesOfAll_append {front : List PlanEntry} {sources : List RuleSource}
    (h : Yields (Names tree) front sources) (rest : List PlanEntry) :
    sourcesOfAll tree (front ++ rest) = (sourcesOfAll tree rest).map (sources ++ ·) := by
  induction h with
  | nil =>
    rw [List.nil_append]
    cases sourcesOfAll tree rest <;> rfl
  | @cons entry front sources others hentry hfront ih =>
    have hsources : entry.sources tree = .ok sources := hentry
    rw [List.cons_append, sourcesOfAll, hsources, ih]
    cases sourcesOfAll tree rest with
    | error cause => rfl
    | ok more => simp [Except.map]

theorem sourcesOfAll_of_yields {entries : List PlanEntry} {sources : List RuleSource}
    (h : Yields (Names tree) entries sources) : sourcesOfAll tree entries = .ok sources := by
  have happend := sourcesOfAll_append h []
  rw [List.append_nil] at happend
  rw [happend, sourcesOfAll, Except.map, List.append_nil]

theorem sourcesOfAll_of_unexpanded {front : List PlanEntry}
    (hfront : ∀ other ∈ front, ∃ sources, other.Names tree sources)
    (h : entry.IsUnexpanded tree error) (rest : List PlanEntry) :
    sourcesOfAll tree (front ++ entry :: rest) = .error error := by
  obtain ⟨sources, hsources⟩ := Yields.exists_iff.mpr hfront
  rw [sourcesOfAll_append hsources, sourcesOfAll, sources_eq_error_iff.mpr h]
  rfl

end PlanEntry

namespace RuleStore

open PlanEntry

variable {tree : FileTree} {front rest : List PlanEntry} {entry : PlanEntry}
  {error late : BuildError}

/-- One round of a build: the entries are all expanded, and then their sources are loaded. -/
def loadRound (tree : FileTree) (store : RuleStore) (round : List PlanEntry) :
    Except BuildError RuleStore :=
  sourcesOfAll tree round >>= store.loadAll tree

theorem loadRound_of_gives {round : List PlanEntry}
    (h : ∀ entry ∈ round, ∃ rules, entry.Gives tree rules) (store : RuleStore) :
    ∃ later, store.loadRound tree round = .ok later := by
  obtain ⟨rules, hrules⟩ := Yields.exists_iff.mpr h
  obtain ⟨sources, hsources, hgives⟩ := giveAll_iff.mp hrules
  obtain ⟨lists, hlists, -⟩ := Yields.iff_forall₂.mp hgives
  refine ⟨store.enterAll lists.flatten, ?_⟩
  rw [loadRound, sourcesOfAll_of_yields hsources]
  exact loadAll_eq_ok_iff.mpr ⟨lists, hlists, rfl⟩

/-- **A round fails as its first failing entry does**, if that one is not overtaken. -/
theorem loadRound_of_fails (hfront : ∀ other ∈ front, ∃ rules, other.Gives tree rules)
    (hfails : entry.Fails tree error) (hintime : ¬ ∃ late, entry.IsOvertaken tree rest late)
    (store : RuleStore) : store.loadRound tree (front ++ entry :: rest) = .error error := by
  have hnamed : ∀ other ∈ front, ∃ sources, other.Names tree sources := fun other hmem =>
    exists_names_of_gives (hfront other hmem)
  cases hfails with
  | unexpanded h =>
    rw [loadRound, sourcesOfAll_of_unexpanded hnamed h]
    rfl
  | @source own behind source cause hnames hown hfails =>
    -- Everything behind is expanded, as nothing there overtakes the source.
    have hbehind : ∀ other ∈ rest, ∃ sources, other.Names tree sources := by
      refine (forall_or_exists_first _ rest).resolve_right ?_
      rintro ⟨between, other, last, hrest, hbetween, hnone⟩
      cases hother : other.sources tree with
      | ok sources => exact hnone ⟨sources, hother⟩
      | error late =>
        exact hintime ⟨late, ⟨_, hnames⟩, between, other, last, hrest, hbetween,
          sources_eq_error_iff.mp hother⟩
    obtain ⟨rules, hrules⟩ := Yields.exists_iff.mpr hfront
    obtain ⟨sources, hsources, hgives⟩ := giveAll_iff.mp hrules
    obtain ⟨ownRules, hownRules⟩ := Yields.exists_iff.mpr hown
    obtain ⟨others, hothers⟩ := Yields.exists_iff.mpr hbehind
    have hall : Yields (Names tree) (front ++ entry :: rest)
        ((sources ++ own) ++ source :: (behind ++ others)) := by
      have hparts : Yields (Names tree) (front ++ entry :: rest)
          (sources ++ ((own ++ source :: behind) ++ others)) :=
        Yields.append_iff.mpr ⟨_, _, hsources, .cons hnames hothers, rfl⟩
      simpa using hparts
    have hinfront : Yields (RuleSource.Gives tree) (sources ++ own) (rules ++ ownRules) :=
      Yields.append_iff.mpr ⟨_, _, hgives, hownRules, rfl⟩
    rw [loadRound, sourcesOfAll_of_yields hall]
    exact loadAll_of_first_failure hinfront hfails (behind ++ others) store

/-- **The entry that overtakes is told.** Nothing of the round is loaded before. -/
theorem loadRound_of_isOvertaken (hfront : ∀ other ∈ front, ∃ rules, other.Gives tree rules)
    (hlate : entry.IsOvertaken tree rest late) (store : RuleStore) :
    store.loadRound tree (front ++ entry :: rest) = .error late := by
  obtain ⟨hnames, between, other, behind, rfl, hbetween, hother⟩ := hlate
  have hnamed : ∀ before ∈ front ++ entry :: between, ∃ sources, before.Names tree sources := by
    refine List.forall_mem_append.mpr ⟨fun before hmem => ?_, List.forall_mem_cons.mpr ⟨?_, ?_⟩⟩
    · exact exists_names_of_gives (hfront before hmem)
    · exact hnames
    · exact hbetween
  have hsources := sourcesOfAll_of_unexpanded hnamed hother behind
  rw [List.append_assoc, List.cons_append] at hsources
  rw [loadRound, hsources]
  rfl

end RuleStore

/-! ## The build -/

namespace FilterPlan

open PlanEntry

variable {plan : FilterPlan} {tree : FileTree} {entry : PlanEntry} {rest : List PlanEntry}
  {error late : BuildError}

/-- The rounds in which a build takes the entries: rule files, XML documents, single rules, and in
each round what the configuration names in front of what the plan names itself. -/
def rounds (plan : FilterPlan) : List (List PlanEntry) :=
  [plan.allLineFiles.map (.files .line), plan.allXmlFiles.map (.files .xml),
    plan.allRules.map .inline]

theorem flatten_rounds (plan : FilterPlan) : plan.rounds.flatten = plan.entries := by
  simp [rounds, entries]

theorem loadStore_eq_foldlM (plan : FilterPlan) (tree : FileTree) :
    plan.loadStore tree =
      plan.rounds.foldlM (RuleStore.loadRound tree) (RuleStore.empty plan.matching) := by
  have hfiles (store : RuleStore) (kind : FileKind) (patterns : List String) :
      store.loadRound tree (patterns.map (.files kind)) =
        tree.expandAll patterns >>= fun paths => store.loadAll tree (paths.map kind.source) := by
    rw [RuleStore.loadRound, sourcesOfAll_files]
    cases tree.expandAll patterns <;> rfl
  have hinline (store : RuleStore) : store.loadRound tree (plan.allRules.map .inline) =
      store.loadAll tree (plan.allRules.map .inline) := by
    rw [RuleStore.loadRound, sourcesOfAll_inline]
    rfl
  simp only [rounds, List.foldlM_cons, List.foldlM_nil, hfiles, hinline, bind_pure, bind_assoc]
  rfl

/-- Of all entries, taken round by round, this one is the first that fails, and this is what is wrong
with it; `rest` is what stands behind it in its round. -/
structure IsFirstFailure (plan : FilterPlan) (tree : FileTree) (entry : PlanEntry)
    (rest : List PlanEntry) (error : BuildError) : Prop where
  isFirst : ∃ earlier front later, plan.rounds = earlier ++ (front ++ entry :: rest) :: later ∧
    ∀ other ∈ earlier.flatten ++ front, ∃ rules, other.Gives tree rules
  fails : entry.Fails tree error

theorem exists_isFirstFailure (hmem : entry ∈ plan.entries) (hfails : entry.Fails tree error) :
    ∃ entry rest error, plan.IsFirstFailure tree entry rest error := by
  -- The first round in which not all entries give their rules, and in that round the first entry.
  rcases forall_or_exists_first
      (fun round => ∀ entry ∈ round, ∃ rules, entry.Gives tree rules) plan.rounds with
    hall | ⟨earlier, round, later, hrounds, hearlier, hround⟩
  · rw [← flatten_rounds] at hmem
    obtain ⟨round, hround, hentry⟩ := List.mem_flatten.mp hmem
    exact absurd (hall round hround entry hentry) (not_gives_of_fails hfails)
  · obtain ⟨front, first, rest, rfl, hfront, hnone⟩ :=
      (forall_or_exists_first _ round).resolve_left hround
    obtain ⟨told, htold⟩ := (first.gives_or_fails tree).resolve_left hnone
    refine ⟨first, rest, told, ⟨earlier, front, later, hrounds, ?_⟩, htold⟩
    intro other hother
    rcases List.mem_append.mp hother with hother | hother
    · obtain ⟨before, hbefore, hin⟩ := List.mem_flatten.mp hother
      exact hearlier before hbefore other hin
    · exact hfront other hother

/-- A build ends with the first round that fails. -/
theorem build_of_loadRound {earlier later : List (List PlanEntry)} {round : List PlanEntry}
    (hrounds : plan.rounds = earlier ++ round :: later)
    (hearlier : ∀ other ∈ earlier.flatten, ∃ rules, other.Gives tree rules)
    (hround : ∀ store : RuleStore, store.loadRound tree round = .error error) :
    plan.build tree = .error error := by
  have hfold (store : RuleStore) :
      (earlier ++ round :: later).foldlM (RuleStore.loadRound tree) store = .error error := by
    clear hrounds
    induction earlier generalizing store with
    | nil => rw [List.nil_append, List.foldlM_cons, hround]; rfl
    | cons first earlier ih =>
      obtain ⟨hfirst, hrest⟩ := List.forall_mem_append.mp hearlier
      obtain ⟨next, hnext⟩ := RuleStore.loadRound_of_gives hfirst store
      rw [List.cons_append, List.foldlM_cons, hnext]
      exact ih hrest next
  rw [build_eq_map, loadStore_eq_foldlM, hrounds, hfold]
  rfl

/-- **The first failure is told**, if it is not overtaken. -/
theorem build_of_fails (h : plan.IsFirstFailure tree entry rest error)
    (hintime : ¬ ∃ late, entry.IsOvertaken tree rest late) : plan.build tree = .error error := by
  obtain ⟨⟨earlier, front, later, hrounds, hgive⟩, hfails⟩ := h
  obtain ⟨hearlier, hfront⟩ := List.forall_mem_append.mp hgive
  exact build_of_loadRound hrounds hearlier (RuleStore.loadRound_of_fails hfront hfails hintime)

theorem build_of_isOvertaken (h : plan.IsFirstFailure tree entry rest error)
    (hlate : entry.IsOvertaken tree rest late) : plan.build tree = .error late := by
  obtain ⟨⟨earlier, front, later, hrounds, hgive⟩, -⟩ := h
  obtain ⟨hearlier, hfront⟩ := List.forall_mem_append.mp hgive
  exact build_of_loadRound hrounds hearlier (RuleStore.loadRound_of_isOvertaken hfront hlate)

/-- **Which failure a build tells.** If an entry of the plan fails, there is a first one that does,
and the build fails for what is wrong with it, unless it can be expanded and an entry behind it in the
same round cannot: then the first such entry is the one that is told. What is wrong with an entry that
cannot be expanded is that its text is no pattern, or that a directory which it looks into cannot be
listed; a directory is told of the text as if this were the name of a file. -/
theorem build_of_isFirstFailure (plan : FilterPlan) (tree : FileTree) :
    ((∃ entry ∈ plan.entries, ∃ error, entry.Fails tree error) →
        ∃ entry rest error, plan.IsFirstFailure tree entry rest error) ∧
      ∀ entry rest error, plan.IsFirstFailure tree entry rest error →
        (plan.build tree = .error error ↔
            ∀ late, entry.IsOvertaken tree rest late → late = error) ∧
          ∀ late, entry.IsOvertaken tree rest late → plan.build tree = .error late := by
  refine ⟨fun ⟨entry, hmem, error, hfails⟩ => exists_isFirstFailure hmem hfails, ?_⟩
  intro entry rest error hfirst
  refine ⟨⟨?_, ?_⟩, fun late => build_of_isOvertaken hfirst⟩
  · intro htold late hlate
    rw [build_of_isOvertaken hfirst hlate] at htold
    exact Except.error.inj htold
  · intro hsame
    by_cases hlate : ∃ late, entry.IsOvertaken tree rest late
    · obtain ⟨late, hlate⟩ := hlate
      rw [build_of_isOvertaken hfirst hlate, hsame late hlate]
    · exact build_of_fails hfirst hlate

/-- A missing XML document is told, though a single rule behind it would be refused: the rule files
in front give their rules, and the pattern behind it can be expanded. -/
theorem build_of_isFirstFailure_missing_document :
    let tree : FileTree := { entries := [(["rules.txt"], .file "memleak\n".toUTF8)] }
    let plan : FilterPlan :=
      { lineFiles := ["rules.txt"], xmlFiles := ["missing.xml", "b*"], rules := ["bad id"] }
    let error : BuildError := .source "missing.xml" (.fileNotFound "missing.xml")
    (∃ entry ∈ plan.entries, ∃ error, entry.Fails tree error) ∧
      plan.IsFirstFailure tree (.files .xml "missing.xml") [.files .xml "b*"] error ∧
      (plan.build tree = .error error ↔
        ∀ late, IsOvertaken tree (.files .xml "missing.xml") [.files .xml "b*"] late →
          late = error) ∧
      plan.build tree = .error error := by
  intro tree plan error
  have hfails : (PlanEntry.files .xml "missing.xml").Fails tree error := by
    have hmissing : tree.readText "missing.xml" = .error .notFound := by decide +kernel
    have hsource : (RuleSource.xmlFile "missing.xml").Fails tree (.fileNotFound "missing.xml") :=
      .xmlFile (.fileNotFound hmissing)
    exact fails_files_of_expand rfl hsource
  have hgives : (PlanEntry.files .line "rules.txt").Gives tree [{ id := "memleak" }] :=
    (gives_files_of_expand rfl).mpr ⟨.lineFile (.stream "memleak\n"), by decide⟩
  have hfirst : plan.IsFirstFailure tree (.files .xml "missing.xml") [.files .xml "b*"] error := by
    refine ⟨⟨[[.files .line "rules.txt"]], [], [[.inline "bad id"]], rfl, ?_⟩, hfails⟩
    intro other hmem
    obtain rfl : other = .files .line "rules.txt" := by simpa using hmem
    exact ⟨_, hgives⟩
  have hintime : ∀ late, IsOvertaken tree (.files .xml "missing.xml") [.files .xml "b*"] late →
      late = error := by
    rintro late ⟨-, between, other, behind, hrest, -, hother⟩
    have hmem : other ∈ [PlanEntry.files .xml "b*"] := by simp [hrest]
    obtain rfl : other = .files .xml "b*" := List.mem_singleton.mp hmem
    have hnone : (sources tree (.files .xml "b*")).toOption = some [] := by decide +kernel
    rw [sources_eq_error_iff.mpr hother] at hnone
    cases hnone
  have hany : ∃ entry ∈ plan.entries, ∃ error, entry.Fails tree error :=
    ⟨.files .xml "missing.xml", by decide, error, hfails⟩
  have hbuild := (build_of_isFirstFailure plan tree).2 _ _ _ hfirst
  exact ⟨hany, hfirst, hbuild.1, hbuild.1.mpr hintime⟩

/-- The first file is missing, but the pattern behind it is told, as it is expanded before the file is
opened. -/
theorem build_tells_later_pattern :
    let tree : FileTree := {}
    let plan : FilterPlan := { lineFiles := ["missing.txt", "rules/[*.txt"] }
    let rest : List PlanEntry := [.files .line "rules/[*.txt"]
    plan.IsFirstFailure tree (.files .line "missing.txt") rest
        (.source "missing.txt" (.unreadable .notFound)) ∧
      plan.build tree = .error (.pattern .openBracket) := by
  intro tree plan rest
  have hfails : (PlanEntry.files .line "missing.txt").Fails tree
      (.source "missing.txt" (.unreadable .notFound)) := by
    have hmissing : tree.readBytes "missing.txt" = .error .notFound := by decide +kernel
    have hsource : (RuleSource.lineFile "missing.txt").Fails tree (.unreadable .notFound) := by
      refine .lineFile ?_
      rw [hmissing]
      exact .unreadable .notFound
    exact fails_files_of_expand rfl hsource
  have hfirst : plan.IsFirstFailure tree (.files .line "missing.txt") rest
      (.source "missing.txt" (.unreadable .notFound)) :=
    ⟨⟨[], [], [[], []], rfl, fun other hmem => absurd hmem List.not_mem_nil⟩, hfails⟩
  have hpattern : sources tree (.files .line "rules/[*.txt") = .error (.pattern .openBracket) := by
    decide +kernel
  have hnames : (PlanEntry.files .line "missing.txt").Names tree [.lineFile "missing.txt"] := rfl
  refine ⟨hfirst, build_of_isOvertaken hfirst ⟨⟨_, hnames⟩, [], _, [], rfl, ?_, ?_⟩⟩
  · exact fun entry hmem => absurd hmem List.not_mem_nil
  · exact sources_eq_error_iff.mp hpattern

/-- So is a later pattern that looks into a directory which cannot be listed. -/
example :
    let tree : FileTree :=
      { entries := [(["locked"], .directory)], unreadable := [(["locked"], .permissionDenied)] }
    tree.expandAll ["missing.txt", "locked/*.txt"] =
      .error (.source "locked/*.txt" (.unreadable .permissionDenied)) := by
  intro tree
  decide +kernel

end FilterPlan

end FindingFilter
