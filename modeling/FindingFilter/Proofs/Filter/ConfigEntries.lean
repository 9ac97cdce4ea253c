import FindingFilter.Config.Loading
import FindingFilter.Proofs.Filter.FirstFailure

/-!
# Filters — plain entries of a configuration file

An entry of a configuration file that is a plain path is seen from the directory of the file. If it is
expanded to this one path, it is loaded as this one file (`FilterPlan.LoadsOneFile`): the build gives
its rules their place among those of the other entries, or fails and names the file.

* **`FilterPlan.loadsOneFile_of_expand`** — an entry that is expanded to itself is loaded as one file;
* **`FilterPlan.loadsOneFile_of_config`** — a plain entry of a configuration file is, if it is
  absolute, or if the directory of the file holds no wildcard, or if the entry with the directory in
  front, read as a pattern, names just this path.

In other directories a plain entry is expanded like a pattern: the signs that stand in the name of the
directory count as if the entry had them (`FilterPlan.not_loadsOneFile_of_starred_directory`).
-/

namespace FindingFilter

namespace FileKind

/-- The entries for files of this kind in a configuration. -/
def listedIn (kind : FileKind) (sources : SourceConfig) : List String :=
  match kind with
  | .line => sources.files
  | .xml => sources.xml

/-- The entries of a configuration file are seen from the directory of the file. -/
theorem listedIn_atPath (kind : FileKind) (config : Config) (path : String) :
    kind.listedIn (config.atPath path).sources =
      (kind.listedIn config.sources).map (Path.join (Path.parent path)) := by
  cases kind <;> rfl

end FileKind

namespace FilterPlan

variable {plan : FilterPlan} {tree : FileTree}

/-! ## One file among the entries -/

/-- The entries for files of one kind, those of the configuration in front. -/
def allFiles (plan : FilterPlan) (kind : FileKind) : List String :=
  match kind with
  | .line => plan.allLineFiles
  | .xml => plan.allXmlFiles

/-- The entries for files of one kind that the plan has besides its configuration. -/
def ownFiles (plan : FilterPlan) (kind : FileKind) : List String :=
  match kind with
  | .line => plan.lineFiles
  | .xml => plan.xmlFiles

/-- What is loaded in front of an entry for files of one kind, if these entries of the kind are. -/
def entriesBefore (plan : FilterPlan) (kind : FileKind) (before : List String) : List PlanEntry :=
  match kind with
  | .line => before.map (.files .line)
  | .xml => plan.allLineFiles.map (.files .line) ++ before.map (.files .xml)

/-- What is loaded behind an entry for files of one kind, if these entries of the kind are. -/
def entriesBehind (plan : FilterPlan) (kind : FileKind) (behind : List String) : List PlanEntry :=
  match kind with
  | .line =>
    behind.map (.files .line) ++ plan.allXmlFiles.map (.files .xml) ++ plan.allRules.map .inline
  | .xml => behind.map (.files .xml) ++ plan.allRules.map .inline

theorem allFiles_eq (plan : FilterPlan) (kind : FileKind) :
    plan.allFiles kind = kind.listedIn plan.config.sources ++ plan.ownFiles kind := by
  cases kind <;> rfl

theorem entries_eq {kind : FileKind} {before behind : List String} {entry : String}
    (h : plan.allFiles kind = before ++ entry :: behind) :
    plan.entries =
      plan.entriesBefore kind before ++ .files kind entry :: plan.entriesBehind kind behind := by
  cases kind with
  | line =>
    have hline : plan.allLineFiles = before ++ entry :: behind := h
    simp [entries, entriesBefore, entriesBehind, hline]
  | xml =>
    have hxml : plan.allXmlFiles = before ++ entry :: behind := h
    simp [entries, entriesBefore, entriesBehind, hxml]

/-- An entry between others of its kind is loaded as the one file at `place`. -/
structure LoadsOneFile (plan : FilterPlan) (tree : FileTree) (kind : FileKind)
    (before : List String) (place : String) (behind : List String) : Prop where
  /-- If a build succeeds, the file gives rules, and they stand in the store once, behind those of
  the entries in front and before those of the entries behind. -/
  loaded : ∀ filter, plan.build tree = .ok filter →
    ∃ front rules back, PlanEntry.GiveAll tree (plan.entriesBefore kind before) front ∧
      (kind.source place).Gives tree rules ∧
      PlanEntry.GiveAll tree (plan.entriesBehind kind behind) back ∧
      filter.store.rules.toList = front ++ rules ++ back
  /-- If the file gives rules and so do all other entries, a build succeeds. -/
  builds : ∀ front rules back, PlanEntry.GiveAll tree (plan.entriesBefore kind before) front →
    (kind.source place).Gives tree rules →
    PlanEntry.GiveAll tree (plan.entriesBehind kind behind) back →
    plan.build tree = .ok (plan.filterOf (front ++ rules ++ back))
  /-- If the file gives no rules and the build gets as far as to it, the build fails for what is
  wrong with the file, and names its path. -/
  fails : (¬ ∃ rules, (kind.source place).Gives tree rules) →
    (∃ paths, tree.expandAll (plan.allFiles kind) = .ok paths) →
    (∃ front, PlanEntry.GiveAll tree (plan.entriesBefore kind before) front) →
    ∃ cause, (∀ store, ((kind.source place).loadInto tree store).failure = some cause) ∧
      plan.build tree = .error (.source place cause)

/-- If the build gets as far as to a file that gives no rules, it fails for what is wrong with it. -/
theorem build_of_file_failure {kind : FileKind} {before behind paths : List String}
    {place : String} (hentry : plan.allFiles kind = before ++ place :: behind)
    (hexpand : tree.expand place = .ok [place])
    (hpaths : tree.expandAll (plan.allFiles kind) = .ok paths) {front : List Rule}
    (hfront : PlanEntry.GiveAll tree (plan.entriesBefore kind before) front) {cause : LoadError}
    (hfails : (kind.source place).Fails tree cause) :
    plan.build tree = .error (.source place cause) := by
  -- The entry stands in the round of its kind, behind the rounds of other kinds.
  obtain ⟨earlier, later, hbefore, hrounds⟩ : ∃ earlier later,
      plan.entriesBefore kind before = earlier.flatten ++ before.map (.files kind) ∧
        plan.rounds = earlier ++ (before.map (.files kind) ++ .files kind place ::
          behind.map (.files kind)) :: later := by
    cases kind with
    | line =>
      have hline : plan.allLineFiles = before ++ place :: behind := hentry
      refine ⟨[], [plan.allXmlFiles.map (.files .xml), plan.allRules.map .inline], rfl, ?_⟩
      simp [rounds, hline]
    | xml =>
      have hxml : plan.allXmlFiles = before ++ place :: behind := hentry
      refine ⟨[plan.allLineFiles.map (.files .line)], [plan.allRules.map .inline], ?_, ?_⟩
      · simp [entriesBefore]
      · simp [rounds, hxml]
  rw [hbefore] at hfront
  refine build_of_fails ⟨⟨earlier, _, later, hrounds, Yields.exists_iff.mp ⟨front, hfront⟩⟩,
    PlanEntry.fails_files_of_expand hexpand hfails⟩ ?_
  -- All entries of the kind can be expanded, so none overtakes this one.
  rintro ⟨late, -, between, other, last, hrest, -, hother⟩
  have hmem : other ∈ behind.map (PlanEntry.files kind) := by
    rw [hrest]
    exact List.mem_append_right _ List.mem_cons_self
  obtain ⟨pattern, hpattern, rfl⟩ := List.mem_map.mp hmem
  rw [hentry, FileTree.expandAll_eq_ok_iff_yields] at hpaths
  obtain ⟨list, hlist⟩ := Yields.exists_iff.mp ⟨paths, hpaths⟩ pattern
    (List.mem_append_right _ (List.mem_cons_of_mem _ hpattern))
  have hsources := PlanEntry.sources_eq_error_iff.mpr hother
  rw [PlanEntry.sources, hlist] at hsources
  cases hsources

/-- **An entry that is expanded to itself is loaded as one file.** -/
theorem loadsOneFile_of_expand {kind : FileKind} {before behind : List String} {place : String}
    (hentry : plan.allFiles kind = before ++ place :: behind)
    (hexpand : tree.expand place = .ok [place]) :
    plan.LoadsOneFile tree kind before place behind := by
  have hentries := entries_eq hentry
  refine ⟨?_, ?_, ?_⟩
  · -- Loaded: the rules of all entries, cut where the entry stands.
    intro filter hbuild
    obtain ⟨_, hgive, rfl⟩ := build_eq_ok_iff_entries.mp hbuild
    rw [hentries, PlanEntry.GiveAll, Yields.append_iff] at hgive
    obtain ⟨front, _, hfront, hrest, rfl⟩ := hgive
    obtain ⟨rules, back, hrules, hback, rfl⟩ := Yields.cons_iff.mp hrest
    refine ⟨front, rules, back, hfront, (PlanEntry.gives_files_of_expand hexpand).mp hrules,
      hback, ?_⟩
    rw [List.append_assoc]
    exact RuleStore.rules_enterAll _ _
  · intro front rules back hfront hrules hback
    refine build_eq_ok_iff_entries.mpr ⟨_, ?_, rfl⟩
    have hplace : (PlanEntry.files kind place).Gives tree rules :=
      (PlanEntry.gives_files_of_expand hexpand).mpr hrules
    rw [hentries, List.append_assoc]
    exact Yields.append_iff.mpr ⟨_, _, hfront, .cons hplace hback, rfl⟩
  · -- Fails: a source that gives no rules fails in every store for the same reason.
    rintro hnone ⟨paths, hpaths⟩ ⟨front, hfront⟩
    obtain ⟨cause, hfails⟩ := ((kind.source place).gives_or_fails tree).resolve_left hnone
    exact ⟨cause, RuleSource.failure_loadInto_of_fails hfails,
      build_of_file_failure hentry hexpand hpaths hfront hfails⟩

/-! ## Plain entries of a configuration file -/

/-- A path in a directory holds the wildcards of both, as the separator is none. -/
theorem hasWildcard_join {base path : String} (h : Path.isAbsolute path = false) :
    Wildcard.hasWildcard (Path.join base path).toList =
      (Wildcard.hasWildcard base.toList || Wildcard.hasWildcard path.toList) := by
  have happend (text more : List Char) : Wildcard.hasWildcard (text ++ more) =
      (Wildcard.hasWildcard text || Wildcard.hasWildcard more) := List.any_append
  have hslash : Wildcard.hasWildcard "/".toList = false := by decide
  -- At most one separator comes between the two texts.
  rw [Path.join, h, Bool.false_or]
  split
  next hempty =>
    obtain rfl : base = "" := String.isEmpty_iff.mp hempty
    rfl
  next =>
    split
    · rw [String.toList_append, happend]
    · rw [String.toList_append, String.toList_append, happend, happend, hslash, Bool.or_false]

theorem join_of_isAbsolute {base path : String} (h : Path.isAbsolute path = true) :
    Path.join base path = path := by
  rw [Path.join, h, Bool.true_or, if_pos rfl]

/-- A plain entry, seen from a directory, is expanded to itself if it is absolute, if the directory
holds no wildcard, or if it names itself when it is read as a pattern. -/
theorem expand_join_eq_iff {base entry : String}
    (hplain : Wildcard.hasWildcard entry.toList = false) :
    tree.expand (Path.join base entry) = .ok [Path.join base entry] ↔
      Path.isAbsolute entry = true ∨ Wildcard.hasWildcard base.toList = false ∨
        tree.glob (Path.join base entry) = .ok [Path.join base entry] := by
  cases habsolute : Path.isAbsolute entry with
  | true => simp [join_of_isAbsolute habsolute, FileTree.expand, hplain]
  | false =>
    rw [FileTree.expand, hasWildcard_join habsolute, hplain, Bool.or_false]
    cases Wildcard.hasWildcard base.toList with
    | true => simp
    | false => simp

/-- **A plain entry of a configuration file is loaded as one file**, the one at the entry as seen from
the directory of the file, and nothing else is loaded for it. An absolute entry is this path as it
stands. A relative entry is this file if the directory holds no wildcard; and if it holds one, as long
as the path, read as a pattern, names itself and nothing else. -/
theorem loadsOneFile_of_config {path document entry : String} {written : Config} {kind : FileKind}
    {before behind : List String} (hread : tree.readText path = .ok document)
    (hwritten : Config.ofToml document = .ok written)
    (hconfig : Config.ofFile tree path = .ok plan.config)
    (hentry : kind.listedIn written.sources = before ++ entry :: behind)
    (hplain : Wildcard.hasWildcard entry.toList = false) :
    let base := Path.parent path
    let place := Path.join base entry
    (Path.isAbsolute entry = true → place = entry) ∧
      (tree.expand place = .ok [place] ↔
        Path.isAbsolute entry = true ∨ Wildcard.hasWildcard base.toList = false ∨
          tree.glob place = .ok [place]) ∧
      (tree.expand place = .ok [place] →
        plan.LoadsOneFile tree kind (before.map (Path.join base)) place
          (behind.map (Path.join base) ++ plan.ownFiles kind)) := by
  intro base place
  refine ⟨join_of_isAbsolute, expand_join_eq_iff hplain, fun hexpand => ?_⟩
  -- The entries that the build sees are those that are written, seen from the directory.
  have hrebased : plan.config = written.atPath path := by
    rw [Config.ofFile, hread] at hconfig
    simp only [hwritten, Except.ok.injEq] at hconfig
    exact hconfig.symm
  have hall : plan.allFiles kind = before.map (Path.join base) ++
      place :: (behind.map (Path.join base) ++ plan.ownFiles kind) := by
    rw [allFiles_eq, hrebased, FileKind.listedIn_atPath, hentry]
    simp only [List.map_append, List.map_cons, List.append_assoc, List.cons_append, base, place]
  exact loadsOneFile_of_expand hall hexpand

/-- The second of three entries, in a directory without wildcards. -/
theorem loadsOneFile_of_config_second_entry :
    let document := "[suppressions]\nfiles = [\"one.txt\", \"two.txt\", \"more*\"]\n"
    let written : Config := { sources := { files := ["one.txt", "two.txt", "more*"] } }
    let tree : FileTree :=
      { entries :=
          [(["a"], .directory), (["a", "suppressor.toml"], .file document.toUTF8),
            (["a", "one.txt"], .file "memleak\n".toUTF8)] }
    let plan : FilterPlan :=
      { config := { sources := { files := ["a/one.txt", "a/two.txt", "a/more*"] } } }
    tree.readText "a/suppressor.toml" = .ok document ∧ Config.ofToml document = .ok written ∧
      Config.ofFile tree "a/suppressor.toml" = .ok plan.config ∧
      FileKind.line.listedIn written.sources = ["one.txt"] ++ "two.txt" :: ["more*"] ∧
      Wildcard.hasWildcard "two.txt".toList = false ∧
      tree.expand "a/two.txt" = .ok ["a/two.txt"] ∧
      plan.LoadsOneFile tree .line ["a/one.txt"] "a/two.txt" ["a/more*"] := by
  intro document written tree plan
  have hread : tree.readText "a/suppressor.toml" = .ok document :=
    eq_ok_of_toOption (by decide +kernel)
  have hwritten : Config.ofToml document = .ok written := eq_ok_of_toOption (by decide +kernel)
  have hconfig : Config.ofFile tree "a/suppressor.toml" = .ok plan.config :=
    eq_ok_of_toOption (by decide +kernel)
  have hentry : FileKind.line.listedIn written.sources = ["one.txt"] ++ "two.txt" :: ["more*"] := rfl
  have hplain : Wildcard.hasWildcard "two.txt".toList = false := by decide
  obtain ⟨-, hexpands, hloads⟩ := loadsOneFile_of_config hread hwritten hconfig hentry hplain
  have hexpand : tree.expand "a/two.txt" = .ok ["a/two.txt"] :=
    hexpands.mpr (Or.inr (Or.inl (by decide)))
  exact ⟨hread, hwritten, hconfig, hentry, hplain, hexpand, hloads hexpand⟩

/-- The star in the name of the directory makes a pattern of the plain entry: it is expanded to the
files of two directories, and both are loaded. -/
theorem not_loadsOneFile_of_starred_directory :
    let document := "[suppressions]\nfiles = [\"rules.txt\"]\n"
    let tree : FileTree :=
      { entries :=
          [(["a*"], .directory), (["ab"], .directory),
            (["a*", "suppressor.toml"], .file document.toUTF8),
            (["a*", "rules.txt"], .file "memleak\n".toUTF8),
            (["ab", "rules.txt"], .file "nullPointer\n".toUTF8)] }
    let plan : FilterPlan := { config := { sources := { files := ["a*/rules.txt"] } } }
    tree.readText "a*/suppressor.toml" = .ok document ∧
      Config.ofToml document = .ok { sources := { files := ["rules.txt"] } } ∧
      Config.ofFile tree "a*/suppressor.toml" = .ok plan.config ∧
      Wildcard.hasWildcard "rules.txt".toList = false ∧
      Path.join (Path.parent "a*/suppressor.toml") "rules.txt" = "a*/rules.txt" ∧
      (RuleSource.lineFile "a*/rules.txt").Gives tree [{ id := "memleak" }] ∧
      plan.build tree = .ok (plan.filterOf [{ id := "memleak" }, { id := "nullPointer" }]) ∧
      ¬ plan.LoadsOneFile tree .line [] "a*/rules.txt" [] := by
  intro document tree plan
  have hgives : (RuleSource.lineFile "a*/rules.txt").Gives tree [{ id := "memleak" }] :=
    ⟨.lineFile (.stream "memleak\n"), by decide⟩
  have hother : (RuleSource.lineFile "ab/rules.txt").Gives tree [{ id := "nullPointer" }] :=
    ⟨.lineFile (.stream "nullPointer\n"), by decide⟩
  -- What the pattern names: the star covers both directories, and each holds the file.
  have hlisting : tree.listing "." = .ok [⟨"a*", true⟩, ⟨"ab", true⟩] := by decide +kernel
  have hfollow : FileGlob.follow tree false
      [.names [.char 'a', .anyRun], .name "rules.txt"] ⟨".", true⟩ =
        ["a*/rules.txt", "ab/rules.txt"].map .ok := by
    rw [FileGlob.follow, FileGlob.inside, if_pos rfl,
      FileGlob.childrenOf_of_pairwise hlisting (by decide)]
    decide +kernel
  have hpattern : FileGlob.ofText "a*/rules.txt" =
      .ok ⟨false, [.names [.char 'a', .anyRun], .name "rules.txt"], false⟩ :=
    eq_ok_of_toOption (by decide +kernel)
  have hexpand : tree.expand "a*/rules.txt" = .ok ["a*/rules.txt", "ab/rules.txt"] := by
    have hstart : FileGlob.placeAt tree "." = ⟨".", true⟩ := by decide +kernel
    have hitems : FileGlob.items
        ⟨false, [.names [.char 'a', .anyRun], .name "rules.txt"], false⟩ tree =
          ["a*/rules.txt", "ab/rules.txt"].map .ok := by
      rw [← hfollow, ← hstart]
      rfl
    exact FileTree.expand_of_pairwise (by decide) hpattern hitems (by decide +kernel)
  -- So the only entry names two sources, and gives the rules of both.
  have hbuild : plan.build tree =
      .ok (plan.filterOf [{ id := "memleak" }, { id := "nullPointer" }]) := by
    have hnames : (PlanEntry.files .line "a*/rules.txt").Names tree
        [.lineFile "a*/rules.txt", .lineFile "ab/rules.txt"] := by
      rw [PlanEntry.Names, PlanEntry.sources, hexpand]
      rfl
    exact build_eq_ok_iff_entries.mpr
      ⟨_, Yields.singleton_iff.mpr ⟨_, hnames, .cons hgives (.cons hother .nil)⟩, rfl⟩
  refine ⟨eq_ok_of_toOption (by decide +kernel), eq_ok_of_toOption (by decide +kernel),
    eq_ok_of_toOption (by decide +kernel), by decide, by decide, hgives, hbuild, fun hloads => ?_⟩
  -- Nothing stands around the entry, so the store would hold the rules of the file alone.
  obtain ⟨front, rules, back, hfront, hrules, hback, hstore⟩ := hloads.loaded _ hbuild
  obtain rfl := hgives.unique hrules
  obtain ⟨⟩ := hfront
  obtain ⟨⟩ := hback
  have htwo : (plan.filterOf [{ id := "memleak" }, { id := "nullPointer" }]).store.rules.toList =
      [{ id := "memleak" }, { id := "nullPointer" }] := RuleStore.rules_enterAll _ _
  rw [htwo] at hstore
  exact absurd hstore (by decide)

end FilterPlan

end FindingFilter
