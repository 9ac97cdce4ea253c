import FindingFilter.Config.TomlForm
import FindingFilter.FileTree

/-!
# Configuration files

A configuration file is read from a tree of files, and its relative paths are then seen from the
directory that holds it.
-/

namespace FindingFilter

/-- Why a configuration file cannot be used. -/
inductive ConfigError where
  | unreadable (path : String) (cause : FileError)
  | malformed (cause : Toml.Error)
  deriving DecidableEq, Repr

def ConfigError.message : ConfigError → String
  | .unreadable path cause => "Failed to read config file " ++ path ++ ": " ++ cause.message
  | .malformed cause => "Failed to parse config: " ++ cause.message

/-- The configuration that the file at a path holds. -/
def Config.ofFile (tree : FileTree) (path : String) : Except ConfigError Config :=
  match tree.readText path with
  | .error cause => .error (.unreadable path cause)
  | .ok document =>
    match Config.ofToml document with
    | .error cause => .error (.malformed cause)
    | .ok config => .ok (config.atPath path)

end FindingFilter
