import FindingFilter.Finding
import FindingFilter.Rule.Basic

/-!
# Reports

What is left of a run after the rules have been applied: the findings to report, the number of
findings that rules covered, and the rules that covered none.
-/

namespace FindingFilter

/-- The result of applying a set of rules to the findings of a run. -/
structure Report where
  findings : List Finding := []
  /-- The number of findings that rules covered, which has 64 bits and wraps. -/
  suppressed : UInt64 := 0
  unmatched : List Rule := []
  deriving DecidableEq, Repr, Inhabited

namespace Report

/-- The id under which a rule without findings is reported. -/
def unmatchedId : String := "unmatchedSuppression"

def total (report : Report) : UInt64 :=
  UInt64.ofNat report.findings.length + report.suppressed

def hasFindings (report : Report) : Bool :=
  !report.findings.isEmpty

/-- Whether nothing is left to report, neither findings nor rules. -/
def isClean (report : Report) : Bool :=
  report.findings.isEmpty && report.unmatched.isEmpty

/-- Both reports as one, the first one's entries in front. -/
def append (report other : Report) : Report where
  findings := report.findings ++ other.findings
  suppressed := report.suppressed + other.suppressed
  unmatched := report.unmatched ++ other.unmatched

def unmatchedLine (rule : Rule) : String :=
  (if rule.file.isEmpty then "*" else rule.file)
    ++ (if rule.line = 0 then "" else ":" ++ toString rule.line.toNat)
    ++ ": information: Unmatched suppression: " ++ rule.id ++ " [" ++ unmatchedId ++ "]"

def summary (report : Report) : String :=
  toString report.findings.length ++ " diagnostic(s) reported, "
    ++ toString report.suppressed.toNat ++ " suppressed, "
    ++ toString report.unmatched.length ++ " unmatched suppression(s)"

/-- One line for each finding, one for each rule that covered nothing, and the summary. -/
def compactLines (report : Report) : List String :=
  report.findings.map Finding.display ++ report.unmatched.map unmatchedLine ++ [report.summary]

def compact (report : Report) : String :=
  String.join (report.compactLines.map (· ++ "\n"))

end Report

end FindingFilter
