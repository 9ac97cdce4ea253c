import FindingFilter.Command.ConfigLocation
import FindingFilter.Command.Failure

/-!
# What a command works on and what it leaves

A command sees a tree of files, standard input and where the configuration is. It leaves a text on
standard output or a failure, an exit code, and the tree of files as it is then.
-/

namespace FindingFilter

structure Environment where
  tree : FileTree
  standardInput : ByteArray := ByteArray.empty
  config : ConfigLocation := .none

structure Outcome where
  exitCode : Nat := 0
  output : String := ""
  failure : Option Failure := none
  tree : FileTree

namespace Outcome

/-- The outcome of a command that fails: it prints nothing and changes no file. -/
def failed (environment : Environment) (failure : Failure) : Outcome where
  exitCode := 1
  failure := some failure
  tree := environment.tree

end Outcome

/-- Sources of rules that a command is given besides those of the configuration. -/
structure SourceArguments where
  lineFiles : List String := []
  xmlFiles : List String := []
  rules : List String := []
  /-- Whether rules hold patterns for file names, whatever the configuration says. -/
  globFileNames : Bool := false
  deriving DecidableEq, Repr, Inhabited

namespace Environment

def loadConfig (environment : Environment) : Except Failure Config :=
  match environment.config.path? with
  | none => .ok {}
  | some path => (Config.ofFile environment.tree path).mapError (.config path)

/-- The plan for a filter with the configuration that holds and further sources. -/
def plan (environment : Environment) (sources : SourceArguments) : Except Failure FilterPlan := do
  let config ← environment.loadConfig
  return {
    config
    lineFiles := sources.lineFiles
    xmlFiles := sources.xmlFiles
    rules := sources.rules
    matching? := if sources.globFileNames then some .glob else none }

def buildFilter (environment : Environment) (plan : FilterPlan) : Except Failure Filter :=
  (plan.build environment.tree).mapError .rules

end Environment

end FindingFilter
