import FindingFilter.Toml.Word

/-!
# TOML documents

A document is a tree of tables, built line by line. `[name]` opens a table and `[[name]]` one more
element of a list of tables; dotted keys open tables on the way. No key is set twice, and a table
once written out is not opened again; how a table came about decides what may still be added to it.
-/

namespace FindingFilter.Toml

/-- How a table came about. -/
inductive Origin where
  /-- By a header of its own, or as the whole document. -/
  | header
  /-- On the way to the table of a header. -/
  | implied
  /-- On the way of a dotted key. -/
  | dotted
  /-- As a value in braces. -/
  | inline
  deriving DecidableEq, Repr

/-- Whether a dotted key may lead through a table of this origin. -/
def Origin.isOpen (origin : Origin) : Bool :=
  origin == .implied || origin == .dotted

/-- What stands at a key. -/
inductive Item where
  | string (text : String)
  | word (value : Word)
  | array (elements : List Item)
  | table (origin : Origin) (entries : List (String × Item))
  /-- A list of tables that headers open one by one. -/
  | tables (elements : List (List (String × Item)))
  deriving Repr

/-- The entries of a table, in the order in which they were set. -/
abbrev Entries := List (String × Item)

/-- The most levels that values, or the parts of a key, may be nested. -/
def maxDepth : Nat := 79

/-! ## Keys -/

/-- A character of a key without quotes. -/
def isKeyChar (c : Char) : Bool := c.isAlphanum || c == '_' || c == '-'

def scanKeyPart (text : List Char) : Except Error (String × List Char) :=
  match text with
  | '"' :: rest => (scanBasic rest).map fun (key, rest) => (String.ofList key, rest)
  | '\'' :: rest => (scanLiteral rest).map fun (key, rest) => (String.ofList key, rest)
  | text =>
    let (key, rest) := text.span isKeyChar
    if key.isEmpty then .error (.expected "a key") else .ok (String.ofList key, rest)

def scanKey : (depth : Nat) → List Char → Except Error (List String × List Char)
  | 0, _ => .error .tooDeep
  | depth + 1, text => do
    let (part, rest) ← scanKeyPart (skipSpaces text)
    match skipSpaces rest with
    | '.' :: rest =>
      let (parts, rest) ← scanKey depth rest
      return (part :: parts, rest)
    | rest => return ([part], rest)

/-! ## Setting entries -/

/-- The entries with `item` at a key, in place of what was there. -/
def setEntry (key : String) (item : Item) : Entries → Entries
  | [] => [(key, item)]
  | (k, old) :: rest => if k = key then (k, item) :: rest else (k, old) :: setEntry key item rest

/-- Changes the table that a path leads to, with its origin, and opens the tables that are missing
on the way. `opened` is the origin of those; a dotted key leads only through tables that are open.
A list of tables stands for its last element. -/
def changeAt (opened : Origin) (change : Origin → Entries → Except Error Entries) :
    List String → Origin → Entries → Except Error Entries
  | [], origin, entries => change origin entries
  | key :: path, _, entries => do
    match entries.lookup key with
    | none =>
      let child ← changeAt opened change path opened []
      return setEntry key (.table opened child) entries
    | some (.table origin child) =>
      -- A table in braces is complete where it stands.
      if origin = .inline then .error (.notATable key)
      else if opened = .dotted ∧ !origin.isOpen then .error (.duplicateKey key)
      else
        let child ← changeAt opened change path origin child
        return setEntry key (.table origin child) entries
    | some (.tables elements) =>
      match elements.getLast? with
      | none => .error (.notATable key)
      | some last =>
        let last ← changeAt opened change path .header last
        return setEntry key (.tables (elements.dropLast ++ [last])) entries
    | some _ => .error (.notATable key)

/-- Sets one entry of a table. A dotted key sets entries only of tables that dotted keys opened. -/
def addEntry (isDotted : Bool) (key : String) (item : Item) (origin : Origin)
    (entries : Entries) : Except Error Entries :=
  if isDotted && origin != .dotted then .error (.duplicateKey key)
  else if (entries.lookup key).isSome then .error (.duplicateKey key)
  else .ok (entries ++ [(key, item)])

/-- Sets the entry at a key of one part or more. -/
def setKey (key : List String) (item : Item) (origin : Origin) (entries : Entries) :
    Except Error Entries :=
  match key.getLast? with
  | none => .error (.expected "a key")
  | some name =>
    changeAt .dotted (addEntry (key.length != 1) name item) key.dropLast origin entries

/-! ## Values -/

/-- The elements of an array after the opening bracket. Each takes a unit of `fuel`. -/
def scanElements (element : List Char → Except Error (Item × List Char)) :
    (fuel : Nat) → List Char → Except Error (List Item × List Char)
  | fuel, text =>
    match skipGaps false text, fuel with
    | ']' :: rest, _ => .ok ([], rest)
    | _, 0 => .error .unexpectedEnd
    | text, fuel + 1 => do
      let (item, rest) ← element text
      match skipGaps false rest with
      | ',' :: rest =>
        let (items, rest) ← scanElements element fuel rest
        return (item :: items, rest)
      | ']' :: rest => return ([item], rest)
      | _ => .error (.expected "`]`")

/-- The entries of a table in braces from one of them on, added to `entries`. -/
def scanInline (value : List Char → Except Error (Item × List Char)) :
    (fuel : Nat) → Entries → List Char → Except Error (Entries × List Char)
  | 0, _, _ => .error .unexpectedEnd
  | fuel + 1, entries, text => do
    let (key, rest) ← scanKey maxDepth text
    match skipSpaces rest with
    | '=' :: rest =>
      let (item, rest) ← value (skipSpaces rest)
      let entries ← setKey key item .inline entries
      match skipSpaces rest with
      | ',' :: rest => scanInline value fuel entries rest
      | '}' :: rest => return (entries, rest)
      | _ => .error (.expected "`\x7d`")
    | _ => .error (.expected "`=`")

/-- The value that a text begins with, and the rest. -/
def scanValue : (depth : Nat) → List Char → Except Error (Item × List Char)
  | depth, text =>
    match text, depth with
    | '"' :: _, _ => (scanQuoted text).map fun (text, rest) => (.string (String.ofList text), rest)
    | '\'' :: _, _ => (scanQuoted text).map fun (text, rest) => (.string (String.ofList text), rest)
    | '[' :: _, 0 => .error .tooDeep
    | '{' :: _, 0 => .error .tooDeep
    | '[' :: rest, depth + 1 => do
      let (items, rest) ← scanElements (scanValue depth) text.length rest
      return (.array items, rest)
    | '{' :: rest, depth + 1 =>
      match skipSpaces rest with
      | '}' :: rest => .ok (.table .inline [], rest)
      | rest => do
        let (entries, rest) ← scanInline (scanValue depth) text.length [] rest
        return (.table .inline entries, rest)
    | text, _ => do
      let (word, rest) ← scanWord text
      return (.word word, rest)

/-! ## Lines -/

/-- A document as far as it is read: its entries, and the table that the next line belongs to. -/
structure Draft where
  entries : Entries := []
  current : List String := []

/-- Opens the table of a header. It may have been implied by another header, but nothing else. -/
def openTable (name : String) (_ : Origin) (entries : Entries) : Except Error Entries :=
  match entries.lookup name with
  | none => .ok (entries ++ [(name, .table .header [])])
  | some (.table .implied child) => .ok (setEntry name (.table .header child) entries)
  | some _ => .error (.duplicateKey name)

/-- Opens one more element of the list of tables of a header. -/
def openElement (name : String) (_ : Origin) (entries : Entries) : Except Error Entries :=
  match entries.lookup name with
  | none => .ok (entries ++ [(name, .tables [[]])])
  | some (.tables elements) => .ok (setEntry name (.tables (elements ++ [[]])) entries)
  | some _ => .error (.duplicateKey name)

/-- The draft after a header, given how the last part of its key is opened. -/
def Draft.openHeader (draft : Draft) (key : List String)
    (opening : String → Origin → Entries → Except Error Entries) : Except Error Draft :=
  match key.getLast? with
  | none => .error (.expected "a key")
  | some name => do
    let entries ← changeAt .implied (opening name) key.dropLast .header draft.entries
    return { entries, current := key }

/-- The draft after an entry of its current table. -/
def Draft.setEntry (draft : Draft) (key : List String) (item : Item) : Except Error Draft := do
  let entries ← changeAt .implied (setKey key item) draft.current .header draft.entries
  return { draft with entries }

/-- The draft after a line that holds something, and the text after that line. -/
def Draft.scanLine (draft : Draft) (text : List Char) : Except Error (Draft × List Char) :=
  match text with
  | '[' :: '[' :: rest => do
    let (key, rest) ← scanKey maxDepth rest
    match rest with
    | ']' :: ']' :: rest => return (← draft.openHeader key openElement, ← endLine rest)
    | _ => .error (.expected "`]]`")
  | '[' :: rest => do
    let (key, rest) ← scanKey maxDepth rest
    match rest with
    | ']' :: rest => return (← draft.openHeader key openTable, ← endLine rest)
    | _ => .error (.expected "`]`")
  | text => do
    let (key, rest) ← scanKey maxDepth text
    match rest with
    | '=' :: rest =>
      let (item, rest) ← scanValue maxDepth (skipSpaces rest)
      return (← draft.setEntry key item, ← endLine rest)
    | _ => .error (.expected "`=`")

/-- The draft after all lines of a text. Each takes a unit of `fuel`. -/
def Draft.scanLines : (fuel : Nat) → Draft → List Char → Except Error Draft
  | fuel, draft, text =>
    match skipGaps false text, fuel with
    | [], _ => .ok draft
    | _, 0 => .error .unexpectedEnd
    | text, fuel + 1 => do
      let (draft, rest) ← draft.scanLine text
      Draft.scanLines fuel draft rest

def ofText (document : String) : Except Error Entries := do
  let text := document.toList
  let text := if text.head? == some '\uFEFF' then text.tail else text
  return (← Draft.scanLines text.length {} text).entries

end FindingFilter.Toml
