import FindingFilter.Config.Basic
import FindingFilter.Rule.JsonForm

/-!
# Configurations in JSON

A configuration is a record of two records, in which every field has a default.
-/

namespace FindingFilter

namespace SourceConfig

def fieldNames : List String := ["files", "xml", "rules", "file_name_matching"]

def toJson (sources : SourceConfig) : Json :=
  .ofMembers [
    ("files", .array (sources.files.map Json.ofString)),
    ("xml", .array (sources.xml.map Json.ofString)),
    ("rules", .array (sources.rules.map Json.ofString)),
    ("file_name_matching", sources.matching.toJson)]

def ofJson (value : Json) : Except Json.Error SourceConfig := do
  match ← Json.fields fieldNames value with
  | [files, xml, rules, matching] =>
    return {
      files := ← Json.optional [] (Json.toListOf Json.toText) files
      xml := ← Json.optional [] (Json.toListOf Json.toText) xml
      rules := ← Json.optional [] (Json.toListOf Json.toText) rules
      matching := ← Json.optional .literal FileMatching.ofJson matching }
  | _ => .error .extraElements

end SourceConfig

namespace ReportConfig

def fieldNames : List String := ["unmatched", "unused_function_checking"]

def toJson (report : ReportConfig) : Json :=
  .ofMembers [
    ("unmatched", .bool report.unmatched),
    ("unused_function_checking", .bool report.unusedFunctions)]

def ofJson (value : Json) : Except Json.Error ReportConfig := do
  match ← Json.fields fieldNames value with
  | [unmatched, unusedFunctions] =>
    return {
      unmatched := ← Json.optional true Json.toBool unmatched
      unusedFunctions := ← Json.optional false Json.toBool unusedFunctions }
  | _ => .error .extraElements

end ReportConfig

namespace Config

def fieldNames : List String := ["suppressions", "report"]

def toJson (config : Config) : Json :=
  .ofMembers [("suppressions", config.sources.toJson), ("report", config.report.toJson)]

def ofJson (value : Json) : Except Json.Error Config := do
  match ← Json.fields fieldNames value with
  | [sources, report] =>
    return {
      sources := ← Json.optional {} SourceConfig.ofJson sources
      report := ← Json.optional {} ReportConfig.ofJson report }
  | _ => .error .extraElements

end Config

end FindingFilter
