import FindingFilter.Config.Basic
import FindingFilter.FileGlob.Expansion
import FindingFilter.Filter.Basic
import FindingFilter.RuleStore.Loading

/-!
# Plans for a filter

A plan says where the rules of a filter come from and how they are applied. It holds a configuration
and settings of its own: its sources come after those of the configuration, kind by kind, and its
other settings win. `FilterPlan.build` loads every source from a tree of files, rule files first,
then XML documents, then single rules, and stops at the first failure.
-/

namespace FindingFilter

inductive RuleSource where
  | lineFile (path : String)
  | xmlFile (path : String)
  | inline (rule : String)
  deriving DecidableEq, Repr

namespace RuleSource

/-- How the source is called in an error. -/
def origin : RuleSource → String
  | .lineFile path => path
  | .xmlFile path => path
  | .inline _ => "inline"

def loadInto (tree : FileTree) (store : RuleStore) : RuleSource → Loading
  | .lineFile path => store.addStream (tree.readBytes path)
  | .xmlFile path => store.addXmlFile tree path
  | .inline rule =>
    match store.addLine rule with
    | .ok store => { store }
    | .error cause => { store, failure := some (.rule cause) }

end RuleSource

/-- Why a filter cannot be built. -/
inductive BuildError where
  | source (origin : String) (cause : LoadError)
  | pattern (cause : FileGlob.Error)
  deriving DecidableEq, Repr

namespace BuildError

/-- Why a text is not expanded, told as a failure of the build. A directory that cannot be listed is
told of the text as if it were the name of a file. -/
def ofExpansion (text : String) : FileGlob.ExpansionError → BuildError
  | .pattern cause => .pattern cause
  | .listing cause => .source text (.unreadable cause)

def message : BuildError → String
  | .source origin cause => origin ++ ": " ++ cause.message
  | .pattern cause => "Invalid glob pattern: " ++ cause.message

def code : BuildError → String
  | .source .. => "suppressor::source"
  | .pattern _ => "suppressor::glob"

end BuildError

namespace RuleStore

def loadAll (tree : FileTree) (store : RuleStore) : List RuleSource → Except BuildError RuleStore
  | [] => .ok store
  | source :: rest =>
    match source.loadInto tree store with
    | { store, failure := none } => store.loadAll tree rest
    | { failure := some cause, .. } => .error (.source source.origin cause)

end RuleStore

namespace FileTree

/-- The paths that a list of texts names, each expanded at its own position. -/
def expandAll (tree : FileTree) : List String → Except BuildError (List String)
  | [] => .ok []
  | path :: rest =>
    match tree.expand path with
    | .error cause => .error (.ofExpansion path cause)
    | .ok paths => (tree.expandAll rest).map (paths ++ ·)

end FileTree

structure FilterPlan where
  config : Config := {}
  lineFiles : List String := []
  xmlFiles : List String := []
  rules : List String := []
  matching? : Option FileMatching := none
  unusedFunctions? : Option Bool := none
  reportsUnmatched? : Option Bool := none
  deriving Repr

namespace FilterPlan

/-- One thing that a plan is told. -/
inductive Setting where
  | config (config : Config)
  | lineFile (path : String)
  | xmlFile (path : String)
  | rules (rules : List String)
  | matching (matching : FileMatching)
  | unusedFunctions (isOn : Bool)
  | reportsUnmatched (isOn : Bool)

/-- The plan with one more setting. Sources are added; anything else replaces what was set. -/
def set (plan : FilterPlan) : Setting → FilterPlan
  | .config config => { plan with config }
  | .lineFile path => { plan with lineFiles := plan.lineFiles ++ [path] }
  | .xmlFile path => { plan with xmlFiles := plan.xmlFiles ++ [path] }
  | .rules rules => { plan with rules := plan.rules ++ rules }
  | .matching matching => { plan with matching? := some matching }
  | .unusedFunctions isOn => { plan with unusedFunctions? := some isOn }
  | .reportsUnmatched isOn => { plan with reportsUnmatched? := some isOn }

def ofSettings (settings : List Setting) : FilterPlan :=
  settings.foldl set {}

def matching (plan : FilterPlan) : FileMatching :=
  plan.matching?.getD plan.config.sources.matching

def unusedFunctions (plan : FilterPlan) : Bool :=
  plan.unusedFunctions?.getD plan.config.report.unusedFunctions

def reportsUnmatched (plan : FilterPlan) : Bool :=
  plan.reportsUnmatched?.getD plan.config.report.unmatched

def allLineFiles (plan : FilterPlan) : List String :=
  plan.config.sources.files ++ plan.lineFiles

def allXmlFiles (plan : FilterPlan) : List String :=
  plan.config.sources.xml ++ plan.xmlFiles

def allRules (plan : FilterPlan) : List String :=
  plan.config.sources.rules ++ plan.rules

/-- The store that the sources of the plan fill. The patterns of one kind of files are all expanded
before the first file of that kind is loaded. -/
def loadStore (plan : FilterPlan) (tree : FileTree) : Except BuildError RuleStore := do
  let lineFiles ← tree.expandAll plan.allLineFiles
  let store ← (RuleStore.empty plan.matching).loadAll tree (lineFiles.map .lineFile)
  let xmlFiles ← tree.expandAll plan.allXmlFiles
  let store ← store.loadAll tree (xmlFiles.map .xmlFile)
  store.loadAll tree (plan.allRules.map .inline)

def build (plan : FilterPlan) (tree : FileTree) : Except BuildError Filter := do
  let store ← plan.loadStore tree
  return {
    store
    unusedFunctions := plan.unusedFunctions
    reportsUnmatched := plan.reportsUnmatched }

end FilterPlan

end FindingFilter
