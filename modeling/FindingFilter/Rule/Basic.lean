import FindingFilter.Finding
import FindingFilter.Text.Cut
import FindingFilter.Wildcard

/-!
# Exemption rules

A rule names findings that are not to be reported. Each of its four constraints (id, file, line,
symbol) can be left open, and `covers` asks that every constraint that is set holds. `checkId` says
which ids a rule may carry.
-/

namespace FindingFilter

/-- How the file of a rule is compared with the file of a finding. -/
inductive FileMatching where
  /-- The two names are equal. -/
  | literal
  /-- The rule holds a wildcard pattern for the name. -/
  | glob
  deriving DecidableEq, Repr, Inhabited

/-- A rule. An empty `file` or `symbol` and a `line` of 0 are open constraints. -/
structure Rule where
  id : String
  file : String := ""
  line : UInt32 := 0
  symbol : String := ""
  /-- Whether the rule has covered a finding. -/
  matched : Bool := false
  deriving DecidableEq, Repr, Inhabited

/-- What is wrong with the id of a rule. -/
inductive RuleError where
  | missingId
  | invalidId (id : String)
  deriving DecidableEq, Repr

def RuleError.message : RuleError → String
  | .missingId => "Failed to add suppression. No id."
  | .invalidId id => "Failed to add suppression. Invalid id \"" ++ id ++ "\""

def RuleError.code : RuleError → String
  | .missingId => "suppressor::missing_id"
  | .invalidId _ => "suppressor::invalid_id"

def RuleError.help : RuleError → String
  | .missingId => "start the rule with an error id, or `*` for any id"
  | .invalidId _ => "ids use ASCII letters, digits and `_`, and do not start with a digit"

namespace Rule

def anyId : String := "*"

/-- The id of findings about unused functions, which come only from runs that check for them. -/
def unusedFunctionId : String := "unusedFunction"

/-- An identifier: ASCII letters, digits and underscores, the first of them not a digit. -/
def isIdentifier (text : List Char) : Bool :=
  match text with
  | [] => false
  | c :: rest => !c.isDigit && (c :: rest).all fun d => d.isAlphanum || d == '_'

/-- An id of a rule is an identifier or stands for every id. -/
def checkId (id : String) : Except RuleError Unit :=
  if id.isEmpty then .error .missingId
  else if id = anyId || isIdentifier id.toList then .ok ()
  else .error (.invalidId id)

/-- Whether the rule may enter a store. -/
def check (rule : Rule) : Except RuleError Unit :=
  checkId rule.id

/-- Whether the rule is about one file or a pattern of files. -/
def hasFile (rule : Rule) : Bool :=
  !rule.file.isEmpty

def idCovers (rule : Rule) (finding : Finding) : Bool :=
  rule.id.isEmpty || rule.id == anyId || rule.id == finding.id

/-- The file of the finding is the one asked for, or covered by the pattern asked for. -/
def fileCovers (rule : Rule) (matching : FileMatching) (finding : Finding) : Bool :=
  rule.file.isEmpty ||
    match matching with
    | .literal => rule.file == finding.file
    | .glob => Wildcard.matchesName rule.file finding.file

def lineCovers (rule : Rule) (finding : Finding) : Bool :=
  rule.line == 0 || rule.line == finding.line

/-- The symbol asked for, with the line feed after it, stands in the symbol text. -/
def symbolCovers (rule : Rule) (finding : Finding) : Bool :=
  rule.symbol.isEmpty || Text.occursIn (rule.symbol.toList ++ ['\n']) finding.symbolText.toList

/-- Whether every constraint of the rule holds of the finding. -/
def covers (rule : Rule) (matching : FileMatching) (finding : Finding) : Bool :=
  rule.idCovers finding && rule.fileCovers matching finding && rule.lineCovers finding
    && rule.symbolCovers finding

/-- Tries the rule with literal file names, and marks it if it covers the finding. -/
def tryOn (rule : Rule) (finding : Finding) : Bool × Rule :=
  if rule.covers .literal finding then (true, { rule with matched := true }) else (false, rule)

end Rule

end FindingFilter
