import FindingFilter.Path
import FindingFilter.Rule.Basic
import FindingFilter.Text.LeadingInt

/-!
# Rules as lines of text

The short form of a rule is `id`, `id:file` or `id:file:line`, one rule on a line. A file name may
hold colons itself, so the last part is a line number only if it has no dot and begins with a
positive integer; otherwise it belongs to the file name. A rule file may end its lines in any way
and skips empty lines and those that begin with `//`.
-/

namespace FindingFilter.Rule

/-- Whether a line of a rule file holds a rule: it is neither empty nor a comment. -/
def isKept (line : List Char) : Bool :=
  !line.isEmpty && !(['/', '/'].isPrefixOf line)

theorem isKept_iff {line : List Char} : isKept line = true ↔ line ≠ [] ∧ ¬ ['/', '/'] <+: line := by
  unfold isKept
  rw [Bool.and_eq_true, Bool.not_eq_true', Bool.not_eq_true', ← Bool.not_eq_true,
    ← Bool.not_eq_true, List.isEmpty_iff, List.isPrefixOf_iff_prefix]

/-- The lines of a rule file that hold a rule. -/
def ruleLines (content : List Char) : List (List Char) :=
  (Text.splitAt Text.isLineBreak content).filter isKept

/-- The file and the line number in what follows the id. -/
def placeOf (place : List Char) : List Char × UInt32 :=
  match Text.cutLast? ':' place with
  | none => (place, 0)
  | some (file, tail) =>
    -- A tail with a dot looks like the end of a file name.
    let line := if tail.contains '.' then 0 else Text.lineNumber tail
    if line = 0 then (place, 0) else (file, line)

/-- The rule that a line of text stands for. Every line stands for one, though perhaps for one that
`check` refuses. -/
def ofLine (line : String) : Rule :=
  match Text.cutFirst? ':' line.toList with
  | none => { id := line }
  | some (id, place) =>
    let (file, number) := placeOf place
    { id := String.ofList id, file := Path.canonical (String.ofList file), line := number }

theorem not_mem_file_ofLine (line : String) : '\\' ∉ (ofLine line).file.toList := by
  unfold ofLine
  split
  · exact List.not_mem_nil
  · exact Path.not_mem_canonical _

/-- The line that stands for the rule, as far as the short form can say it: the symbol is left out,
and the file is written whenever a line number follows it. -/
def lineForm (rule : Rule) : String :=
  rule.id
    ++ (if rule.hasFile || rule.line != 0 then ":" ++ rule.file else "")
    ++ (if rule.line != 0 then ":" ++ toString rule.line.toNat else "")

end FindingFilter.Rule
