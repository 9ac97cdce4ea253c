import FindingFilter.Json.Printer
import FindingFilter.Report.JsonForm

/-!
# Printed forms of a report

A report is printed as text for people, as JSON, or with one line for each finding.
-/

namespace FindingFilter

inductive ReportFormat where
  | text
  | json
  | compact
  deriving DecidableEq, Repr, Inhabited

def ReportFormat.ofName? : String → Option ReportFormat
  | "text" => some .text
  | "json" => some .json
  | "compact" => some .compact
  | _ => none

inductive Colour where
  | red
  | green
  | blue
  deriving DecidableEq, Repr

namespace Colour

def start : Colour → String
  | .red => "\x1b[31m"
  | .green => "\x1b[32m"
  | .blue => "\x1b[34m"

def stop : String := "\x1b[0m"

def paint (colour : Colour) (text : String) : String :=
  colour.start ++ text ++ stop

end Colour

/-- The lines about a finding in the form for people, with a blank line after them. -/
def Finding.textLines (finding : Finding) : List String :=
  [finding.id ++ " at " ++ finding.file ++ ":" ++ toString finding.line.toNat,
    "  " ++ Colour.red.paint "error" ++ ": " ++ finding.message]
  ++ (if finding.symbols.isEmpty then []
      else ["  = symbols: " ++ String.intercalate ", " finding.symbols])
  ++ [""]

namespace Report

/-- The colour of the summary: red if findings are left, blue if only idle rules are. -/
def colour (report : Report) : Colour :=
  if report.hasFindings then .red
  else if report.unmatched.isEmpty then .green
  else .blue

def textLines (report : Report) : List String :=
  report.findings.flatMap Finding.textLines
    ++ report.unmatched.map unmatchedLine
    ++ (if report.unmatched.isEmpty then [] else [""])
    ++ [report.colour.paint report.summary]

def text (report : Report) : String :=
  String.join (report.textLines.map (· ++ "\n"))

def prettyJson (report : Report) : String :=
  report.toJson.pretty ++ "\n"

def render (report : Report) : ReportFormat → String
  | .text => report.text
  | .json => report.prettyJson
  | .compact => report.compact

end Report

end FindingFilter
