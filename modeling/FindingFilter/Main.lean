import FindingFilter.Command.Arguments

/-!
# The program

`main` reads the command line, takes a picture of the files that the command can look at, runs the
command on that picture, and writes what the command leaves. All decisions are made by
`Request.ofWords` and `Command.run`; this module only moves bytes.
-/

namespace FindingFilter.Program

/-- The most levels of directories that are looked through for the files of a pattern. -/
def maxLevels : Nat := 64

/-- The beginnings of a path text, each with the location that it leads to. -/
def beginnings (start : Location) (path : String) : List (String × Location) :=
  let pieces := (Text.splitAt (· == '/') path.toList).map String.ofList
  let start := if Path.isAbsolute path then [] else start
  (pieces.foldl
    (fun (read : String × Location × List (String × Location)) piece =>
      let (text, location, found) := read
      let location :=
        if piece = "" ∨ piece = "." then location
        else if piece = ".." then location.dropLast
        else location ++ [piece]
      let next := text ++ piece
      (next ++ "/", location, found ++ [(next, location)]))
    ("", start, [])).2.2

/-- The location that a path text leads to. -/
def locate (start : Location) (path : String) : Location :=
  ((beginnings start path).getLast?.map (·.2)).getD start

def causeOf : IO.Error → FileError
  | .permissionDenied .. => .permissionDenied
  | error => .system (toString error)

/-- Adds what is at a path of the file system, with every directory on the way. Of a file, only the
name is taken unless `withContent`. -/
def stage (withContent : Bool) (tree : FileTree) (path : String) : IO FileTree := do
  let mut tree := tree
  for (text, location) in beginnings tree.workingDirectory path do
    let place := (← IO.currentDir) / text
    if location.isEmpty then
      continue
    else if ← place.isDir then
      tree := tree.add location .directory
    else if ← place.pathExists then
      if withContent then
        try
          tree := tree.add location (.file (← IO.FS.readBinFile place))
        catch error =>
          tree := (tree.add location (.file ByteArray.empty)).refuse location (causeOf error)
      else
        tree := tree.add location (.file ByteArray.empty)
  return tree

/-- Adds the names of all that is below a directory of the file system. -/
def stageBelow : (levels : Nat) → FileTree → (path : String) → IO FileTree
  | 0, tree, _ => return tree
  | levels + 1, tree, path => do
    let place := (← IO.currentDir) / path
    if !(← place.isDir) then return tree
    let mut tree := tree
    try
      for entry in ← place.readDir do
        let child := Path.join path entry.fileName
        tree ← stage false tree child
        tree ← stageBelow levels tree child
    catch error =>
      tree := tree.refuse (locate tree.workingDirectory path) (causeOf error)
    return tree

/-- Adds the files that a source of rules can be about. -/
def stageSource (tree : FileTree) (path : String) : IO FileTree := do
  if !Wildcard.hasWildcard path.toList then return ← stage true tree path
  let pieces := (Text.splitAt (· == '/') path.toList).map String.ofList
  let (fixed, choices) := pieces.span fun piece => !Wildcard.hasWildcard piece.toList
  let base := String.intercalate "/" (if fixed = [] then ["."] else fixed ++ [""])
  -- First the names alone, then the content of the files that the pattern picks.
  let levels := if choices.contains "**" then maxLevels else choices.length
  let mut tree ← stageBelow levels (← stage false tree base) base
  for found in (tree.expand path).toOption.getD [] do
    tree ← stage true tree found
  return tree

/-- All bytes of a stream, behind those that are read already. -/
partial def readAll (stream : IO.FS.Stream) (read : ByteArray) : IO ByteArray := do
  let more ← stream.read 65536
  if more.isEmpty then return read
  readAll stream (read ++ more)

/-- The sources of rules that a command is given. -/
def sourcesOf : Command → SourceArguments
  | .check request => request.sources
  | .list sources => sources
  | .init _ => {}

/-- What a command can look at, given the configuration that is named. -/
def environmentFor (explicit : Option String) (command : Command) : IO Environment := do
  let directory := (← IO.currentDir).toString
  let setting ← IO.getEnv "SUPPRESSOR_CONFIG_DIR"
  let user := ConfigLocation.userDirectory? setting (← IO.getEnv "HOME")
  let working := ((directory.splitOn "/").filter (!·.isEmpty))
  let mut tree := FileTree.add { workingDirectory := working } working .directory
  let candidates := explicit.toList ++ ConfigLocation.projectFiles
    ++ ConfigLocation.projectFiles.map (Path.join directory)
    ++ (user.map fun user => Path.join user ConfigLocation.userFile).toList
  for path in candidates do
    tree ← stage true tree path
  let config := ConfigLocation.resolve tree directory user explicit
  let mut environment : Environment := { tree, config }
  if let .ok plan := environment.plan (sourcesOf command) then
    for path in plan.allLineFiles ++ plan.allXmlFiles do
      tree ← stageSource tree path
  if let .check request := command then
    match request.findingsInput with
    | .file path => tree ← stage true tree path
    | .standardInput =>
      environment := { environment with standardInput := ← readAll (← IO.getStdin) ByteArray.empty }
  return { environment with tree }

def finish (before : FileTree) (outcome : Outcome) : IO UInt32 := do
  let path := ConfigLocation.projectFile
  if let .ok content := outcome.tree.readBytes path then
    if (before.readBytes path).toOption != some content then
      IO.FS.writeBinFile path content
  IO.print outcome.output
  if let some failure := outcome.failure then
    IO.eprintln ("Error: " ++ failure.text)
  return UInt32.ofNat outcome.exitCode

end FindingFilter.Program

open FindingFilter in
/-- The program: exit code 2 stands for a command line that is refused. -/
def main (words : List String) : IO UInt32 := do
  match Request.ofWords words with
  | .error e =>
    IO.eprintln ("error: " ++ e.message)
    return 2
  | .ok .version =>
    IO.println versionText
    return 0
  | .ok (.command explicit command) =>
    let environment ← Program.environmentFor explicit command
    Program.finish environment.tree (command.run environment)
