import FindingFilter.Text.Lines

/-!
# Path texts

Operations on paths as texts, without a look at any file: canonical separators, joining, the parent,
and the components by which paths are ordered. A path is absolute if it starts with `/`.
-/

namespace FindingFilter.Path

/-- The path with `/` for every backslash, the form in which rules and findings name files. -/
def canonical (path : String) : String :=
  String.ofList (path.toList.map fun c => if c = '\\' then '/' else c)

/-- No backslash is left. -/
theorem not_mem_canonical (path : String) : '\\' ∉ (canonical path).toList := by
  rw [canonical, String.toList_ofList, List.mem_map]
  rintro ⟨c, -, hc⟩
  split at hc
  · cases hc
  · contradiction

/-- A path without backslashes is in canonical form, and no other path is. -/
theorem canonical_eq_self_iff {path : String} : canonical path = path ↔ '\\' ∉ path.toList := by
  constructor
  · intro h
    rw [← h]
    exact not_mem_canonical path
  · intro h
    have hkeep : ∀ c ∈ path.toList, (if c = '\\' then '/' else c) = c := by
      intro c hc
      apply if_neg
      rintro rfl
      exact h hc
    rw [canonical, List.map_congr_left hkeep, List.map_id', String.ofList_toList]

def isAbsolute (path : String) : Bool :=
  path.toList.head? == some '/'

/-- The path `path` as seen from the directory `base`; an absolute path stays as it is. -/
def join (base path : String) : String :=
  if isAbsolute path || base.isEmpty then path
  else if base.toList.getLast? == some '/' then base ++ path
  else base ++ "/" ++ path

/-- One step of a path. The constructors stand in the order in which paths are sorted. -/
inductive Component where
  | root
  | here
  | up
  | name (text : String)
  deriving DecidableEq, Repr

/-- The components of a path. Repeated separators and `.` count for nothing, except a `.` at the
very beginning. -/
def components (path : String) : List Component :=
  let named (piece : List Char) : List Component :=
    if piece.isEmpty || piece == ['.'] then []
    else if piece == ['.', '.'] then [.up]
    else [.name (String.ofList piece)]
  match Text.splitAt (· == '/') path.toList with
  | [] => []
  | first :: more =>
    let start :=
      if first.isEmpty then (if more.isEmpty then [] else [.root])
      else if first == ['.'] then [.here]
      else named first
    start ++ more.flatMap named

/-- The rank of a component among those of another kind. -/
def Component.rank : Component → Nat
  | .root => 0
  | .here => 1
  | .up => 2
  | .name _ => 3

/-- Whether a component comes strictly before another: by kind, and names by their code points. -/
def Component.before : Component → Component → Bool
  | .name a, .name b => a < b
  | a, b => a.rank < b.rank

/-- Whether a list of components comes before another or equals it, in lexicographic order. -/
def componentsLe : List Component → List Component → Bool
  | [], _ => true
  | _ :: _, [] => false
  | a :: as, b :: bs => a.before b || (a == b && componentsLe as bs)

def le (a b : String) : Bool :=
  componentsLe (components a) (components b)

/-- Drops separators and components `.` from the end of a reversed path text, but not a root nor a
`.` that stands alone. -/
def dropIdleEnd : List Char → List Char
  | '/' :: c :: rest => dropIdleEnd (c :: rest)
  | '.' :: '/' :: rest => dropIdleEnd ('/' :: rest)
  | text => text

/-- The directory part of a path that names a file: the text before its last component; the empty
path if there is only one. -/
def parent (path : String) : String :=
  String.ofList (dropIdleEnd ((dropIdleEnd path.toList.reverse).dropWhile (· != '/'))).reverse

end FindingFilter.Path
