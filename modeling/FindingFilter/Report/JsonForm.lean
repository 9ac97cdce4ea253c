import FindingFilter.Finding.JsonForm
import FindingFilter.Report
import FindingFilter.Rule.JsonForm

/-!
# Reports in JSON

A report is a record of three fields, all of which must be given.
-/

namespace FindingFilter.Report

def fieldNames : List String := ["diagnostics", "suppressed", "unmatched"]

def toJson (report : Report) : Json :=
  .ofMembers [
    ("diagnostics", .array (report.findings.map Finding.toJson)),
    ("suppressed", .ofNat report.suppressed.toNat),
    ("unmatched", .array (report.unmatched.map Rule.toJson))]

def ofJson (value : Json) : Except Json.Error Report := do
  match ← Json.fields fieldNames value with
  | [findings, suppressed, unmatched] =>
    return {
      findings := ← Json.required "diagnostics" (Json.toListOf Finding.ofJson) findings
      suppressed := ← Json.required "suppressed" Json.toUInt64 suppressed
      unmatched := ← Json.required "unmatched" (Json.toListOf Rule.ofJson) unmatched }
  | _ => .error .extraElements

end FindingFilter.Report
