import FindingFilter.Json.Record
import FindingFilter.Rule.Basic

/-!
# Rules in JSON

A rule is a record of five fields, of which only the id must be given. A way of comparing files is
its name, or an object whose only member has that name and the value `null`.
-/

namespace FindingFilter

namespace Rule

def fieldNames : List String :=
  ["error_id", "file_name", "line_number", "symbol_name", "matched"]

def toJson (rule : Rule) : Json :=
  .ofMembers [
    ("error_id", .ofString rule.id),
    ("file_name", .ofString rule.file),
    ("line_number", .ofNat rule.line.toNat),
    ("symbol_name", .ofString rule.symbol),
    ("matched", .bool rule.matched)]

def ofJson (value : Json) : Except Json.Error Rule := do
  match ← Json.fields fieldNames value with
  | [id, file, line, symbol, matched] =>
    return {
      id := ← Json.required "error_id" Json.toText id
      file := ← Json.optional "" Json.toText file
      line := ← Json.optional 0 Json.toUInt32 line
      symbol := ← Json.optional "" Json.toText symbol
      matched := ← Json.optional false Json.toBool matched }
  | _ => .error .extraElements

end Rule

namespace FileMatching

def name : FileMatching → String
  | .literal => "literal"
  | .glob => "glob"

def ofName? : String → Option FileMatching
  | "literal" => some .literal
  | "glob" => some .glob
  | _ => none

def toJson (matching : FileMatching) : Json := .ofString matching.name

def ofJson (value : Json) : Except Json.Error FileMatching :=
  let found :=
    match value with
    | .string (some text) => ofName? (String.ofList text)
    | .object [(some text, .null)] => ofName? (String.ofList text)
    | _ => none
  match found with
  | some matching => .ok matching
  | none => .error (.wrongKind "literal or glob")

end FileMatching

end FindingFilter
