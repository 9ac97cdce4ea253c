import FindingFilter.FileGlob.Pattern
import FindingFilter.FileTree
import FindingFilter.Path
import FindingFilter.Wildcard

/-!
# Files that a pattern names

A pattern is followed part by part from the directory where it starts, and comes upon the paths that
it names. A part that leaves a choice looks into directories, and one that cannot be listed is come
upon as well, in place of what is in it (`FileGlob.items`). `FileTree.glob` gives the paths, sorted as
paths are, or the failure of the first directory that cannot be listed. A relative pattern starts in
the working directory, and its paths are written without `./` in front.
-/

namespace FindingFilter.FileGlob

/-- A place on the way of a pattern. -/
structure Place where
  path : String
  isDirectory : Bool
  deriving DecidableEq, Repr

def placeAt (tree : FileTree) (path : String) : Place :=
  ⟨path, tree.isDirectory path⟩

/-- What is found in a directory: a place and the name at its end. -/
structure Child extends Place where
  name : String
  deriving DecidableEq, Repr

def isHere (path : String) : Bool :=
  Path.components path == [.here]

def childPath (directory name : String) : String :=
  if isHere directory then name else Path.join directory name

/-- What is in the directory that a path leads to, sorted by name. The listing tells which of it are
directories. -/
def childrenOf (tree : FileTree) (path : String) : Except FileError (List Child) :=
  (tree.listing path).map fun listed =>
    (listed.mergeSort fun a b => !(b.name < a.name)).map fun entry =>
      ⟨⟨childPath path entry.name, entry.isDirectory⟩, entry.name⟩

/-- What a pattern comes upon: a path that it names, or the failure of a directory that it has to
list. -/
abbrev Item := Except FileError String

/-- What is come upon in a directory, given what its children lead to. If it cannot be listed, that is
all; and there is nothing in a place that is no directory. -/
def inside (tree : FileTree) (place : Place) (visit : List Child → List Item) : List Item :=
  if place.isDirectory then
    match childrenOf tree place.path with
    | .ok children => visit children
    | .error cause => [.error cause]
  else []

/-- What is come upon below a place, at most `depth` levels down, given what each child leads to. What
a child leads to stands before what is below it. -/
def below (tree : FileTree) (visit : Child → List Item) : (depth : Nat) → Place → List Item
  | 0, _ => []
  | depth + 1, place =>
    inside tree place fun children =>
      children.flatMap fun child => visit child ++ below tree visit depth child.toPlace

/-- What is come upon below a place, on all levels. A path is longer on each level than on the one
above, and a path that is too long cannot be listed. -/
def allBelow (tree : FileTree) (visit : Child → List Item) (place : Place) : List Item :=
  below tree visit (FileTree.maxPathBytes + 2) place

/-- The names `..` and `.`, if tokens cover them and begin with a dot. -/
def dotNames (tokens : List Token) : List String :=
  if tokens.head? == some (.char '.') then ["..", "."].filter fun name => covers tokens name.toList
  else []

/-- Whether a name leads on from a place. The names `.` and `..` do from a directory, any other if
something exists there. -/
def leadsOn (tree : FileTree) (place : Place) (name : String) : Bool :=
  if name = "." ∨ name = ".." then place.isDirectory
  else tree.pathExists (childPath place.path name)

/-- What a list of parts comes upon from a place on. Behind `**` only names that stand in a directory
count, so neither `.` nor `..` is found there. -/
def follow (tree : FileTree) (onlyDirectories : Bool) : List Part → Place → List Item
  | [], place => if onlyDirectories && !place.isDirectory then [] else [.ok place.path]
  | .name text :: rest, place =>
    -- A name without choice is looked up, so the directory need not be listed.
    if leadsOn tree place text then
      follow tree onlyDirectories rest (placeAt tree (childPath place.path text))
    else []
  | .names tokens :: rest, place =>
    inside tree place fun children =>
      -- The names `.` and `..` stand in no listing and are tried apart.
      (dotNames tokens).flatMap (fun name =>
          follow tree onlyDirectories rest (placeAt tree (Path.join place.path name)))
        ++ (children.filter fun child => covers tokens child.name.toList).flatMap
          fun child => follow tree onlyDirectories rest child.toPlace
  | [.anyDepth], place =>
    allBelow tree (fun child => if child.isDirectory then [.ok child.path] else []) place
  | .anyDepth :: part :: rest, place =>
    allBelow tree (fun child =>
      if part.isNamed child.name then follow tree onlyDirectories rest child.toPlace else []) place

/-- The place where a pattern starts. -/
def start (glob : FileGlob) (tree : FileTree) : Place :=
  placeAt tree (if glob.isAbsolute then "/" else ".")

/-- What a pattern comes upon in a tree, in this order. -/
def items (glob : FileGlob) (tree : FileTree) : List Item :=
  if glob.parts.isEmpty then []
  else follow tree glob.onlyDirectories glob.parts (glob.start tree)

/-- Why a text is not expanded. -/
inductive ExpansionError where
  | pattern (cause : Error)
  /-- A directory that the pattern looks into cannot be listed. -/
  | listing (cause : FileError)
  deriving DecidableEq, Repr

end FileGlob

namespace FileTree

/-- The paths that the text of a pattern names, sorted. The first directory that cannot be listed ends
the search. -/
def glob (tree : FileTree) (pattern : String) :
    Except FileGlob.ExpansionError (List String) :=
  match FileGlob.ofText pattern with
  | .error cause => .error (.pattern cause)
  | .ok glob =>
    match (glob.items tree).mapM id with
    | .error cause => .error (.listing cause)
    | .ok paths => .ok (paths.mergeSort Path.le)

/-- The paths that a text names: those of the pattern if it holds a wildcard, otherwise the text
itself, whether or not it leads to anything. -/
def expand (tree : FileTree) (path : String) : Except FileGlob.ExpansionError (List String) :=
  if Wildcard.hasWildcard path.toList then tree.glob path else .ok [path]

end FileTree

end FindingFilter
