import FindingFilter.Command.Check
import FindingFilter.Command.Init
import FindingFilter.Command.Listing

/-!
# Command lines

A command line is a command with options before and after its name. `readWords` cuts words into
options and operands by the table of options that are known at that place; `Request.ofWords` checks
them and puts the request together. Options that hold for every command may stand before or after
the name of the command, and what stands after it wins.
-/

namespace FindingFilter

inductive OptionKey where
  | verbose
  | config
  | version
  | lineFile
  | xmlFile
  | rule
  | globFileNames
  | checkedFile
  | unusedFunctions
  | noUnmatched
  | format
  | force
  deriving DecidableEq, Repr

namespace OptionKey

def long : OptionKey → String
  | .verbose => "verbose"
  | .config => "config"
  | .version => "version"
  | .lineFile => "suppressions"
  | .xmlFile => "suppressions-xml"
  | .rule => "suppress"
  | .globFileNames => "glob-file-names"
  | .checkedFile => "file"
  | .unusedFunctions => "unused-function-checking"
  | .noUnmatched => "no-unmatched"
  | .format => "format"
  | .force => "force"

def short? : OptionKey → Option Char
  | .verbose => some 'v'
  | .config => some 'c'
  | .version => some 'V'
  | .format => some 'f'
  | _ => none

def takesValue : OptionKey → Bool
  | .config | .lineFile | .xmlFile | .rule | .checkedFile | .format => true
  | _ => false

def isRepeatable : OptionKey → Bool
  | .lineFile | .xmlFile | .rule | .checkedFile => true
  | _ => false

/-- Whether the value is a path, which must not be empty. -/
def isPath : OptionKey → Bool
  | .config | .lineFile | .xmlFile => true
  | _ => false

/-- The options that hold for every command. -/
def general : List OptionKey := [.verbose, .config]

/-- The options that may stand before the name of the command. -/
def leading : List OptionKey := .version :: general

/-- The options that name sources of rules. -/
def sources : List OptionKey := [.lineFile, .xmlFile, .rule, .globFileNames]

end OptionKey

/-- Why a command line is refused. -/
inductive UsageError where
  | unknownOption (word : String)
  | unexpectedValue (key : OptionKey)
  | missingValue (key : OptionKey)
  | emptyPath (key : OptionKey)
  | repeatedOption (key : OptionKey)
  | badFormat (value : String)
  | missingCommand
  | unknownCommand (word : String)
  | unexpectedOperand (word : String)
  | missingOperand
  deriving DecidableEq, Repr

def UsageError.message : UsageError → String
  | .unknownOption word => "unexpected argument '" ++ word ++ "' found"
  | .unexpectedValue key => "unexpected value for '--" ++ key.long ++ "'"
  | .missingValue key => "a value is required for '--" ++ key.long ++ "'"
  | .emptyPath key => "a value is required for '--" ++ key.long ++ "' but none was supplied"
  | .repeatedOption key => "the argument '--" ++ key.long ++ "' cannot be used multiple times"
  | .badFormat value => "invalid value '" ++ value ++ "' for '--format'"
  | .missingCommand => "a subcommand is required"
  | .unknownCommand word => "unrecognized subcommand '" ++ word ++ "'"
  | .unexpectedOperand word => "unexpected argument '" ++ word ++ "' found"
  | .missingOperand => "the diagnostics to check are required"

/-! ## Words -/

/-- An option as it is given, with its value if it takes one. -/
structure GivenOption where
  key : OptionKey
  value : String := ""
  deriving DecidableEq, Repr

/-- What words come to: options, and operands in the order given. -/
structure ReadWords where
  options : List GivenOption := []
  operands : List String := []
  deriving DecidableEq, Repr

inductive WordReading where
  /-- Options that are complete. -/
  | options (options : List GivenOption)
  /-- Options, and one more whose value is the next word. -/
  | wantsValue (options : List GivenOption) (key : OptionKey)
  /-- Options that make all further words meaningless. -/
  | final (options : List GivenOption)
  | operand
  /-- The mark behind which all words are operands. -/
  | endOfOptions
  deriving DecidableEq, Repr

/-- A word that begins with a hyphen and is longer than that is no value. -/
def looksLikeOption (word : String) : Bool :=
  match word.toList with
  | '-' :: _ :: _ => true
  | _ => false

/-- The letters of a word behind its hyphen. The first letter that takes a value has the rest of the
word as its value, behind an equals sign or not. -/
def readLetters (known : List OptionKey) : List Char → Except UsageError WordReading
  | [] => .ok (.options [])
  | letter :: rest =>
    match known.find? fun key => key.short? == some letter with
    | none => .error (.unknownOption (String.ofList ['-', letter]))
    | some key =>
      if key = .version then .ok (.final [{ key }])
      else if key.takesValue then
        -- No further letter is an option: the rest of the word is the value.
        match rest with
        | [] => .ok (.wantsValue [] key)
        | '=' :: value => .ok (.options [{ key, value := String.ofList value }])
        | value => .ok (.options [{ key, value := String.ofList value }])
      else
        (readLetters known rest).map fun
          | .options options => .options ({ key } :: options)
          | .wantsValue options last => .wantsValue ({ key } :: options) last
          | .final options => .final ({ key } :: options)
          | reading => reading

/-- A word behind its two hyphens: a name, and perhaps a value behind an equals sign. -/
def readLong (known : List OptionKey) (word : List Char) : Except UsageError WordReading :=
  let (name, value) :=
    match Text.cutFirst? '=' word with
    | some (name, value) => (name, some (String.ofList value))
    | none => (word, none)
  match known.find? fun key => key.long == String.ofList name with
  | none => .error (.unknownOption (String.ofList ('-' :: '-' :: name)))
  | some key =>
    match key.takesValue, value with
    | true, some value => .ok (.options [{ key, value }])
    | true, none => .ok (.wantsValue [] key)
    | false, some _ => .error (.unexpectedValue key)
    | false, none => .ok (if key = .version then .final [{ key }] else .options [{ key }])

/-- What a word comes to where the options `known` may stand. -/
def readWord (known : List OptionKey) (word : String) : Except UsageError WordReading :=
  match word.toList with
  | ['-', '-'] => .ok .endOfOptions
  | '-' :: '-' :: name => readLong known name
  | '-' :: letter :: letters => readLetters known (letter :: letters)
  | _ => .ok .operand

/-- The options and operands of words. If `stopsAtOperand`, the first operand ends the reading, and
all words from it on are operands. -/
def readWords (known : List OptionKey) (stopsAtOperand : Bool) :
    List String → Except UsageError ReadWords
  | [] => .ok {}
  | word :: rest =>
    match readWord known word with
    | .error e => .error e
    | .ok (.final options) => .ok { options }
    | .ok (.options options) =>
      (readWords known stopsAtOperand rest).map fun read =>
        { read with options := options ++ read.options }
    | .ok (.wantsValue options key) =>
      match rest with
      | [] => .error (.missingValue key)
      | value :: rest =>
        if looksLikeOption value then .error (.missingValue key)
        else
          (readWords known stopsAtOperand rest).map fun read =>
            { read with options := options ++ { key, value } :: read.options }
    | .ok .operand =>
      if stopsAtOperand then .ok { operands := word :: rest }
      else
        (readWords known stopsAtOperand rest).map fun read =>
          { read with operands := word :: read.operands }
    | .ok .endOfOptions => .ok { operands := if stopsAtOperand then word :: rest else rest }

/-- Refuses an empty path and an option that is given twice though it may not be. -/
def checkOptions : List GivenOption → Except UsageError Unit
  | [] => .ok ()
  | given :: rest =>
    if given.key.isPath && given.value.isEmpty then .error (.emptyPath given.key)
    else if !given.key.isRepeatable && rest.any (·.key == given.key) then
      .error (.repeatedOption given.key)
    else checkOptions rest

/-- The words at one place of the command line, checked. -/
def readChecked (known : List OptionKey) (stopsAtOperand : Bool) (words : List String) :
    Except UsageError ReadWords := do
  let read ← readWords known stopsAtOperand words
  checkOptions read.options
  return read

namespace ReadWords

def has (read : ReadWords) (key : OptionKey) : Bool :=
  read.options.any (·.key == key)

def values (read : ReadWords) (key : OptionKey) : List String :=
  (read.options.filter (·.key == key)).map (·.value)

def value? (read : ReadWords) (key : OptionKey) : Option String :=
  (read.values key).head?

def sources (read : ReadWords) : SourceArguments where
  lineFiles := read.values .lineFile
  xmlFiles := read.values .xmlFile
  rules := read.values .rule
  globFileNames := read.has .globFileNames

end ReadWords

/-! ## Requests -/

inductive Command where
  | check (request : CheckRequest)
  | list (sources : SourceArguments)
  | init (force : Bool)
  deriving Repr

namespace Command

/-- The options that may stand after the name of a command, if there is a command of that name. -/
def optionsOf? : String → Option (List OptionKey)
  | "check" => some (OptionKey.general ++ OptionKey.sources
      ++ [.checkedFile, .unusedFunctions, .noUnmatched, .format])
  | "list" => some (OptionKey.general ++ OptionKey.sources)
  | "init" => some (OptionKey.general ++ [.force])
  | _ => none

def formatOf (read : ReadWords) : Except UsageError ReportFormat :=
  match read.value? .format with
  | none => .ok .text
  | some name =>
    match ReportFormat.ofName? name with
    | some format => .ok format
    | none => .error (.badFormat name)

/-- The command with a name, given what follows the name. -/
def ofRead (name : String) (read : ReadWords) : Except UsageError Command :=
  match name, read.operands with
  | "check", [] => .error .missingOperand
  | "check", [input] => do
    return .check {
      input
      sources := read.sources
      checkedFiles := read.values .checkedFile
      unusedFunctions := read.has .unusedFunctions
      noUnmatched := read.has .noUnmatched
      format := ← formatOf read }
  | "check", _ :: operand :: _ => .error (.unexpectedOperand operand)
  | _, operand :: _ => .error (.unexpectedOperand operand)
  | "list", [] => .ok (.list read.sources)
  | "init", [] => .ok (.init (read.has .force))
  | name, [] => .error (.unknownCommand name)

def run (command : Command) (environment : Environment) : Outcome :=
  match command with
  | .check request => request.run environment
  | .list sources => sources.list environment
  | .init force => Init.run force environment

end Command

inductive Request where
  /-- Only the version of the program is asked for. -/
  | version
  /-- A command, and the configuration if one is named. -/
  | command (config : Option String) (command : Command)
  deriving Repr

def versionText : String := "suppressor 0.1.0"

def Request.ofWords (words : List String) : Except UsageError Request := do
  let leading ← readChecked OptionKey.leading true words
  if leading.has .version then return .version
  match leading.operands with
  | [] => throw .missingCommand
  | name :: words =>
    match Command.optionsOf? name with
    | none => throw (.unknownCommand name)
    | some known =>
      -- What stands after the name of the command wins over what stands before it.
      let read ← readChecked known false words
      let command ← Command.ofRead name read
      return .command (read.value? .config <|> leading.value? .config) command

end FindingFilter
