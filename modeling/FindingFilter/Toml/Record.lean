import FindingFilter.Toml.Document

/-!
# Records in TOML

A record is read from a table, whose unknown keys are ignored, or from a list of its fields in
order, of which the last may be missing and what follows the last is ignored. A date or a time
counts as a table that holds no key of any record.
-/

namespace FindingFilter.Toml

/-- The items of the fields of a record, in the order of their names. -/
def fields (names : List String) : Item → Except Error (List (Option Item))
  | .table _ entries => .ok (names.map fun name => entries.lookup name)
  | .array elements => .ok ((List.range names.length).map fun i => elements[i]?)
  | .tables elements =>
    .ok ((List.range names.length).map fun i => (elements[i]?).map (.table .header))
  | .word .dateTime => .ok (names.map fun _ => none)
  | _ => .error (.wrongKind "a table")

def toText : Item → Except Error String
  | .string text => .ok text
  | _ => .error (.wrongKind "a string")

def toBool : Item → Except Error Bool
  | .word (.boolean value) => .ok value
  | _ => .error (.wrongKind "true or false")

def toTexts : Item → Except Error (List String)
  | .array elements => elements.mapM toText
  | _ => .error (.wrongKind "an array of strings")

/-- Whether an item holds nothing: it is a table or an array without entries. -/
def isVoid : Item → Bool
  | .table _ entries => entries.isEmpty
  | .array elements => elements.isEmpty
  | .tables elements => elements.isEmpty
  | _ => false

/-- The name that stands for a choice: a string, or the only key of a table, which leads to nothing.
-/
def toName : Item → Except Error String
  | .string name => .ok name
  | .table _ [(name, item)] =>
    if isVoid item then .ok name else .error (.wrongKind "an empty table")
  | _ => .error (.wrongKind "a string or a table with one key")

/-- The value of a field, or its default. -/
def optional (default : α) (read : Item → Except Error α) : Option Item → Except Error α
  | some item => read item
  | none => .ok default

end FindingFilter.Toml
