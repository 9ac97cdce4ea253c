import FindingFilter.Path
import FindingFilter.Rule.Basic

/-!
# Configurations

Where the rules of a project come from and what is to be reported about them. Relative paths in a
configuration are seen from the directory of the file that holds it.
-/

namespace FindingFilter

structure SourceConfig where
  /-- Rule files in line form, as paths or file patterns. -/
  files : List String := []
  /-- XML documents, as paths or file patterns. -/
  xml : List String := []
  /-- Rules in line form. -/
  rules : List String := []
  matching : FileMatching := .literal
  deriving DecidableEq, Repr, Inhabited

/-- What a configuration says about idle rules. -/
structure ReportConfig where
  unmatched : Bool := true
  unusedFunctions : Bool := false
  deriving DecidableEq, Repr, Inhabited

structure Config where
  sources : SourceConfig := {}
  report : ReportConfig := {}
  deriving DecidableEq, Repr, Inhabited

/-- The sources with their relative paths seen from the directory `base`. -/
def SourceConfig.rebase (sources : SourceConfig) (base : String) : SourceConfig :=
  { sources with
    files := sources.files.map (Path.join base)
    xml := sources.xml.map (Path.join base) }

/-- The configuration of a file at `path`, with its relative paths seen from where the file is. -/
def Config.atPath (config : Config) (path : String) : Config :=
  { config with sources := config.sources.rebase (Path.parent path) }

end FindingFilter
