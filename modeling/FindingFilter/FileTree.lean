import FindingFilter.Text.Lines

/-!
# Trees of files

A file system as a value: the directories and files that exist, and the directory in which relative
paths start. A path text is followed piece by piece (`walk`), as an operating system does it: each
piece but the last must lead to a directory, `..` leads back, and a file cannot be passed through.
Reading gives bytes, or text if the bytes are UTF-8. What exists need not be readable: a file may
refuse to give its bytes and a directory to tell what is in it, and paths lead there all the same.
-/

namespace FindingFilter

/-- Why a file operation fails. -/
inductive FileError where
  | notFound
  | notADirectory
  | isADirectory
  | nameTooLong
  | permissionDenied
  /-- No path holds the character U+0000. -/
  | nulInPath
  /-- The bytes are not UTF-8. -/
  | notText
  /-- Any other reason, in the words of the operating system. -/
  | system (text : String)
  deriving DecidableEq, Repr

def FileError.message : FileError → String
  | .notFound => "No such file or directory (os error 2)"
  | .notADirectory => "Not a directory (os error 20)"
  | .isADirectory => "Is a directory (os error 21)"
  | .nameTooLong => "File name too long (os error 36)"
  | .permissionDenied => "Permission denied (os error 13)"
  | .nulInPath => "file name contained an unexpected NUL byte"
  | .notText => "stream did not contain valid UTF-8"
  | .system text => text

/-- A place in a tree of files: the names that lead there from the root. -/
abbrev Location := List String

inductive FileEntry where
  | directory
  | file (content : ByteArray)

def FileEntry.isDirectory : FileEntry → Bool
  | .directory => true
  | .file _ => false

/-- The files and directories that exist, and the directory where relative paths start. The root
always exists. -/
structure FileTree where
  entries : List (Location × FileEntry) := []
  workingDirectory : Location := []
  /-- The directories that cannot be listed and the files that cannot be read, each with the
  reason. -/
  unreadable : List (Location × FileError) := []

namespace FileTree

/-- The longest path text and the longest name that can be followed, in bytes. -/
def maxPathBytes : Nat := 4095

@[inherit_doc maxPathBytes]
def maxNameBytes : Nat := 255

def entryAt? (tree : FileTree) (location : Location) : Option FileEntry :=
  if location.isEmpty then some .directory
  else (tree.entries.find? fun entry => entry.1 == location).map (·.2)

/-- Follows the pieces of a path from a location on. Each piece is looked for in a directory that
exists; nothing need exist where the last one leads. An empty piece and `.` stay where they are. -/
def walk (tree : FileTree) (location : Location) : List String → Except FileError Location
  | [] => .ok location
  | piece :: rest =>
    match tree.entryAt? location with
    | none => .error .notFound
    | some (.file _) => .error .notADirectory
    | some .directory =>
      if piece = "" ∨ piece = "." then tree.walk location rest
      else if piece = ".." then tree.walk location.dropLast rest
      else if maxNameBytes < piece.utf8ByteSize then .error .nameTooLong
      else tree.walk (location ++ [piece]) rest

/-- The location that a path text leads to, and what exists there. -/
def find (tree : FileTree) (path : String) : Except FileError (Location × FileEntry) :=
  if path.toList.contains '\x00' then .error .nulInPath
  else if path.isEmpty then .error .notFound
  else if maxPathBytes < path.utf8ByteSize then .error .nameTooLong
  else
    let start := if path.toList.head? == some '/' then [] else tree.workingDirectory
    let pieces := (Text.splitAt (· == '/') path.toList).map String.ofList
    match tree.walk start pieces with
    | .error e => .error e
    | .ok location =>
      match tree.entryAt? location with
      | none => .error .notFound
      | some entry => .ok (location, entry)

def pathExists (tree : FileTree) (path : String) : Bool :=
  match tree.find path with
  | .ok _ => true
  | .error _ => false

def isDirectory (tree : FileTree) (path : String) : Bool :=
  match tree.find path with
  | .ok (_, .directory) => true
  | _ => false

/-- Why what is at a location cannot be read, if it cannot. -/
def refusal? (tree : FileTree) (location : Location) : Option FileError :=
  (tree.unreadable.find? fun refused => refused.1 == location).map (·.2)

/-- What a path leads to, to be read. -/
def access (tree : FileTree) (path : String) : Except FileError (Location × FileEntry) :=
  match tree.find path with
  | .error e => .error e
  | .ok (location, entry) =>
    match tree.refusal? location with
    | some cause => .error cause
    | none => .ok (location, entry)

def readBytes (tree : FileTree) (path : String) : Except FileError ByteArray :=
  match tree.access path with
  | .ok (_, .file content) => .ok content
  | .ok (_, .directory) => .error .isADirectory
  | .error e => .error e

/-- Bytes as text, if they are UTF-8. -/
def decodeText (content : ByteArray) : Except FileError String :=
  match String.fromUTF8? content with
  | some text => .ok text
  | none => .error .notText

/-- Only the encoding of a text is read as that text. -/
theorem decodeText_eq_ok_iff {content : ByteArray} {text : String} :
    decodeText content = .ok text ↔ content = text.toUTF8 := by
  unfold decodeText String.fromUTF8?
  by_cases hvalid : content.IsValidUTF8
  · rw [dif_pos hvalid]
    constructor
    · intro h
      cases h
      rfl
    · rintro rfl
      rfl
  · rw [dif_neg hvalid]
    constructor
    · intro h
      cases h
    · rintro rfl
      exact absurd text.isValidUTF8 hvalid

theorem eq_notText_of_decodeText {content : ByteArray} {cause : FileError}
    (h : decodeText content = .error cause) : cause = .notText := by
  unfold decodeText at h
  split at h
  · cases h
  · cases h
    rfl

def readText (tree : FileTree) (path : String) : Except FileError String :=
  match tree.readBytes path with
  | .ok content => decodeText content
  | .error e => .error e

/-- What a listing tells of one thing in a directory. -/
structure Listed where
  name : String
  isDirectory : Bool
  deriving DecidableEq, Repr

/-- Whether a text can be the name of something in a directory. -/
def isName (text : String) : Bool :=
  text != "" && text != "." && text != ".." && !text.toList.contains '/'

/-- What is in the directory that a path leads to. -/
def listing (tree : FileTree) (path : String) : Except FileError (List Listed) :=
  match tree.access path with
  | .ok (location, .directory) =>
    .ok (tree.entries.filterMap fun (place, entry) =>
      match place.getLast? with
      | some name =>
        if place.dropLast == location && isName name then some ⟨name, entry.isDirectory⟩ else none
      | none => none)
  | .ok (_, .file _) => .error .notADirectory
  | .error e => .error e

/-- The tree with `entry` at a location, in place of what was there. -/
def put (tree : FileTree) (location : Location) (entry : FileEntry) : FileTree :=
  { tree with
    entries := tree.entries.filter (fun old => old.1 != location) ++ [(location, entry)] }

/-- The tree with `entry` at a location and every directory on the way to it. -/
def add (tree : FileTree) (location : Location) (entry : FileEntry) : FileTree :=
  let parents := (List.range location.length).map location.take
  let missing := parents.filter fun parent => (tree.entryAt? parent).isNone
  (missing.foldl (fun tree parent => tree.put parent .directory) tree).put location entry

/-- The tree in which what is at a location cannot be read. -/
def refuse (tree : FileTree) (location : Location) (cause : FileError) : FileTree :=
  { tree with unreadable := (location, cause) :: tree.unreadable }

/-- The tree after a file is written: its content is replaced, or it is made in a directory that
exists. -/
def write (tree : FileTree) (path : String) (content : ByteArray) : Except FileError FileTree :=
  match tree.find path with
  | .ok (location, .file _) => .ok (tree.put location (.file content))
  | .ok (_, .directory) => .error .isADirectory
  | .error .notFound =>
    -- The last piece may be new, but all before it must lead to a directory.
    let start := if path.toList.head? == some '/' then [] else tree.workingDirectory
    let pieces := (Text.splitAt (· == '/') path.toList).map String.ofList
    match tree.walk start pieces.dropLast, pieces.getLast? with
    | .ok location, some name =>
      if name = "" then .error (if path.isEmpty then .notFound else .isADirectory)
      else
        match tree.entryAt? location with
        | some .directory => .ok (tree.put (location ++ [name]) (.file content))
        | some (.file _) => .error .notADirectory
        | none => .error .notFound
    | .error e, _ => .error e
    | .ok _, none => .error .notFound
  | .error e => .error e

end FileTree

end FindingFilter
