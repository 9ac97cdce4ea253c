import FindingFilter.Config.JsonForm
import FindingFilter.Toml.Record

/-!
# Configurations in TOML

A configuration file is a TOML document of two tables with the same field names as in JSON. Every
field has a default, so the empty document is the default configuration.
-/

namespace FindingFilter

def FileMatching.ofToml (item : Toml.Item) : Except Toml.Error FileMatching := do
  match FileMatching.ofName? (← Toml.toName item) with
  | some matching => return matching
  | none => throw (.wrongKind "literal or glob")

def SourceConfig.ofToml (item : Toml.Item) : Except Toml.Error SourceConfig := do
  match ← Toml.fields SourceConfig.fieldNames item with
  | [files, xml, rules, matching] =>
    return {
      files := ← Toml.optional [] Toml.toTexts files
      xml := ← Toml.optional [] Toml.toTexts xml
      rules := ← Toml.optional [] Toml.toTexts rules
      matching := ← Toml.optional .literal FileMatching.ofToml matching }
  | _ => throw (.wrongKind "a table")

def ReportConfig.ofToml (item : Toml.Item) : Except Toml.Error ReportConfig := do
  match ← Toml.fields ReportConfig.fieldNames item with
  | [unmatched, unusedFunctions] =>
    return {
      unmatched := ← Toml.optional true Toml.toBool unmatched
      unusedFunctions := ← Toml.optional false Toml.toBool unusedFunctions }
  | _ => throw (.wrongKind "a table")

namespace Config

def ofEntries (entries : Toml.Entries) : Except Toml.Error Config := do
  match ← Toml.fields Config.fieldNames (.table .header entries) with
  | [sources, report] =>
    return {
      sources := ← Toml.optional {} SourceConfig.ofToml sources
      report := ← Toml.optional {} ReportConfig.ofToml report }
  | _ => throw (.wrongKind "a table")

def ofToml (document : String) : Except Toml.Error Config := do
  ofEntries (← Toml.ofText document)

end Config

end FindingFilter
