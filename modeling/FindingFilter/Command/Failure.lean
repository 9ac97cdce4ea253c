import FindingFilter.Config.Loading
import FindingFilter.Filter.Plan
import FindingFilter.Finding.Reading

/-!
# Failures of a command

A failure is told with all its causes, from what the command could not do inwards to what the file
system or a text refused. `Failure.text` writes such a chain.
-/

namespace FindingFilter

def LoadError.chain (error : LoadError) : List String :=
  error.message ::
    match error with
    | .malformedXml cause => [cause.message]
    | .unreadable cause => [cause.message]
    | _ => []

def BuildError.chain (error : BuildError) : List String :=
  error.message ::
    match error with
    | .source _ cause => cause.chain
    | .pattern cause => [cause.message]

def ConfigError.chain (error : ConfigError) : List String :=
  error.message ::
    match error with
    | .unreadable _ cause => [cause.message]
    | .malformed _ => []

inductive FindingsInput where
  | standardInput
  | file (path : String)
  deriving DecidableEq, Repr

/-- Why a command does not do its work. -/
inductive Failure where
  | config (path : String) (cause : ConfigError)
  | rules (cause : BuildError)
  | unreadableFindings (input : FindingsInput) (cause : FileError)
  | malformedFindings (cause : Finding.ReadError)
  | configExists (path : String)
  | unwritable (cause : FileError)
  deriving DecidableEq, Repr

namespace Failure

def message : Failure → String
  | .config path _ => "Failed to load config: " ++ path
  | .rules _ => "Failed to load suppressions"
  | .unreadableFindings .standardInput _ => "Failed to read diagnostics from stdin"
  | .unreadableFindings (.file path) _ => "Failed to read diagnostics: " ++ path
  | .malformedFindings cause => cause.message
  | .configExists path =>
    "Configuration file already exists at " ++ path ++ ". Use --force to overwrite."
  | .unwritable cause => cause.message

def causes : Failure → List String
  | .config _ cause => cause.chain
  | .rules cause => cause.chain
  | .unreadableFindings _ cause => [cause.message]
  | .malformedFindings cause => [cause.cause.message]
  | .configExists _ => []
  | .unwritable _ => []

/-- A text with `first` before its first line and `more` before every other. -/
def indented (first more text : String) : String :=
  first ++ String.intercalate ("\n" ++ more)
    ((Text.splitAt (· == '\n') text.toList).map String.ofList)

/-- A number at the end of a column five wide, with a colon and a blank behind it. -/
def numbered (number : Nat) : String :=
  let digits := toString number
  String.ofList (List.replicate (5 - digits.length) ' ') ++ digits ++ ": "

/-- The failure with its causes: a single cause is indented, several are numbered. -/
def text (failure : Failure) : String :=
  match failure.causes with
  | [] => failure.message
  | [cause] => failure.message ++ "\n\nCaused by:\n" ++ indented "    " "    " cause
  | causes =>
    failure.message ++ "\n\nCaused by:\n" ++ String.intercalate "\n"
      (causes.mapIdx fun number cause => indented (numbered number) "       " cause)

end Failure

end FindingFilter
