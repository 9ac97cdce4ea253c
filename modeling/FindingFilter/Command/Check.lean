import FindingFilter.Command.Basic
import FindingFilter.Report.Format

/-!
# Checking the findings of a run

`check` takes the findings of a run through the rules and prints the report. Its exit code is 1 if
findings are left. The rules are loaded before the findings are read.
-/

namespace FindingFilter

/-- What is to be checked, and how the report is to look. -/
structure CheckRequest where
  /-- Where the findings are read from; the path `-` is standard input. -/
  input : String
  sources : SourceArguments := {}
  /-- The files that were analysed, beyond those that findings name. -/
  checkedFiles : List String := []
  /-- Whether the run looked for unused functions. -/
  unusedFunctions : Bool := false
  /-- Whether idle rules are left out. -/
  noUnmatched : Bool := false
  format : ReportFormat := .text
  deriving DecidableEq, Repr

namespace CheckRequest

def findingsInput (request : CheckRequest) : FindingsInput :=
  if Path.components request.input = [.name "-"] then .standardInput else .file request.input

def readInput (request : CheckRequest) (environment : Environment) : Except Failure String :=
  let text :=
    match request.findingsInput with
    | .standardInput => FileTree.decodeText environment.standardInput
    | .file path => environment.tree.readText path
  text.mapError (.unreadableFindings request.findingsInput)

def readFindings (request : CheckRequest) (environment : Environment) :
    Except Failure (List Finding) := do
  (Finding.listOfText (← request.readInput environment)).mapError .malformedFindings

def plan (request : CheckRequest) (environment : Environment) : Except Failure FilterPlan := do
  let plan ← environment.plan request.sources
  return { plan with
    unusedFunctions? := if request.unusedFunctions then some true else none
    reportsUnmatched? := if request.noUnmatched then some false else none }

def report (request : CheckRequest) (environment : Environment) : Except Failure Report := do
  let filter ← environment.buildFilter (← request.plan environment)
  let findings ← request.readFindings environment
  return (filter.apply findings request.checkedFiles).1

def run (request : CheckRequest) (environment : Environment) : Outcome :=
  match request.report environment with
  | .error failure => .failed environment failure
  | .ok report =>
    { exitCode := if report.hasFindings then 1 else 0
      output := report.render request.format
      tree := environment.tree }

end CheckRequest

end FindingFilter
