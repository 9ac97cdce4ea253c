import FindingFilter.Finding
import FindingFilter.Json.Record

/-!
# Findings in JSON

A finding is a record of five fields, of which only the id must be given. The message is written
only if there is one.
-/

namespace FindingFilter.Finding

def fieldNames : List String :=
  ["error_id", "file_name", "line_number", "symbol_names", "message"]

def toJson (finding : Finding) : Json :=
  .ofMembers ([
    ("error_id", .ofString finding.id),
    ("file_name", .ofString finding.file),
    ("line_number", .ofNat finding.line.toNat),
    ("symbol_names", .ofString finding.symbolText)]
    ++ if finding.message.isEmpty then [] else [("message", .ofString finding.message)])

def ofJson (value : Json) : Except Json.Error Finding := do
  match ← Json.fields fieldNames value with
  | [id, file, line, symbolText, message] =>
    return {
      id := ← Json.required "error_id" Json.toText id
      file := ← Json.optional "" Json.toText file
      line := ← Json.optional 0 Json.toUInt32 line
      symbolText := ← Json.optional "" Json.toText symbolText
      message := ← Json.optional "" Json.toText message }
  | _ => .error .extraElements

end FindingFilter.Finding
