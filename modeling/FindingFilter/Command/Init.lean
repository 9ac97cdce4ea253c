import FindingFilter.Command.Basic

/-!
# Making a configuration

`init` writes a first configuration file with comments into the working directory. It does not
replace what is there unless it is told to.
-/

namespace FindingFilter.Init

def configLines : List String :=
  ["# suppressor configuration",
   "",
   "[suppressions]",
   "# Line-format files: one `errorId[:fileName[:lineNumber]]` rule per line.",
   "# Glob patterns are expanded; relative paths are resolved from this file.",
   "files = []",
   "",
   "# XML files with <suppress> elements",
   "xml = []",
   "",
   "# Inline rules in line format",
   "rules = [",
   "    # \"uninitvar:src/legacy.c:10\",",
   "]",
   "",
   "# \"literal\" compares file names exactly, \"glob\" allows * and ? in rule file names",
   "file_name_matching = \"literal\"",
   "",
   "[report]",
   "# Report suppressions that never matched a diagnostic",
   "unmatched = true",
   "",
   "# Set when unused-function checking ran, so unusedFunction rules can be reported",
   "unused_function_checking = false"]

def configText : String :=
  String.join (configLines.map (· ++ "\n"))

def nextSteps : List String :=
  ["Created suppressor.toml",
   "",
   "Next steps:",
   "  1. Add suppression files or rules to suppressor.toml",
   "  2. Run: suppressor check diagnostics.json"]

def run (force : Bool) (environment : Environment) : Outcome :=
  let path := ConfigLocation.projectFile
  if environment.tree.pathExists path && !force then .failed environment (.configExists path)
  else
    match environment.tree.write path configText.toUTF8 with
    | .error cause => .failed environment (.unwritable cause)
    | .ok tree => { output := String.join (nextSteps.map (· ++ "\n")), tree }

end FindingFilter.Init
