import FindingFilter.Command.Basic

/-!
# Listing rules

`list` loads all rules and prints them as a table, with `*` for a constraint that is open and with
the scope of each rule.
-/

namespace FindingFilter

namespace Listing

/-- A text at the beginning of a column. A text that is too long is not cut. -/
def padded (width : Nat) (text : String) : String :=
  text ++ String.ofList (List.replicate (width - text.length) ' ')

def row (id file line symbol scope : String) : String :=
  String.intercalate " " [padded 30 id, padded 30 file, padded 6 line, padded 16 symbol, scope]

def header : List String :=
  [row "Id" "File" "Line" "Symbol" "Scope", String.ofList (List.replicate 90 '-')]

def orAny (text : String) : String :=
  if text.isEmpty then "*" else text

def ruleRow (matching : FileMatching) (rule : Rule) : String :=
  row rule.id (orAny rule.file) (if rule.line = 0 then "*" else toString rule.line.toNat)
    (orAny rule.symbol) (rule.scope matching).label

def lines (store : RuleStore) : List String :=
  header ++ store.toList.map (ruleRow store.matching)
    ++ ["", toString store.size ++ " rule(s)"]

end Listing

/-- Lists the rules of the configuration and of further sources. -/
def SourceArguments.list (sources : SourceArguments) (environment : Environment) : Outcome :=
  match environment.plan sources >>= environment.buildFilter with
  | .error failure => .failed environment failure
  | .ok filter =>
    { output := String.join ((Listing.lines filter.store).map (· ++ "\n"))
      tree := environment.tree }

end FindingFilter
