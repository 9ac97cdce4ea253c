import FindingFilter.FileTree
import FindingFilter.Path

/-!
# Where the configuration is

A configuration that is named explicitly is used, whether or not it exists. Otherwise the first file
that exists is used: one of the two names in the directory of the project, then the one in the
directory of the user. If there is none, the default configuration holds.
-/

namespace FindingFilter

/-- Where a configuration was found. -/
inductive ConfigLocation where
  | explicit (path : String)
  | project (path : String)
  | user (path : String)
  | none
  deriving DecidableEq, Repr

namespace ConfigLocation

def path? : ConfigLocation → Option String
  | .explicit path => some path
  | .project path => some path
  | .user path => some path
  | .none => Option.none

/-- The name of the configuration file of a project, as it is made. -/
def projectFile : String := "suppressor.toml"

/-- The names of the configuration file of a project, the one that wins first. -/
def projectFiles : List String := [projectFile, ".suppressor.toml"]

def userFile : String := "config.toml"

/-- The directory in which a user has a configuration: the one that is set, even if the setting is
empty, or else one in the home directory. -/
def userDirectory? (setting home : Option String) : Option String :=
  match setting with
  | some directory => some directory
  | Option.none => home.map fun home => Path.join home ".suppressor"

def resolve (tree : FileTree) (projectDirectory : String) (userDirectory explicit : Option String) :
    ConfigLocation :=
  match explicit with
  | some path => .explicit path
  | Option.none =>
    match (projectFiles.map (Path.join projectDirectory)).find? tree.pathExists with
    | some path => .project path
    | Option.none =>
      let path := userDirectory.map fun directory => Path.join directory userFile
      match path.filter tree.pathExists with
      | some path => .user path
      | Option.none => .none

end ConfigLocation

end FindingFilter
