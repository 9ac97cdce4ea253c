import FindingFilter.Json.Value

/-!
# Records in JSON

A record is read from an object, whose members with unknown names are ignored, or from an array of
its fields in order. `fields` finds the value of each field by either way; `required` and `optional`
read one. A field that is absent takes its default, and `null` is a value like any other, so it
stands for no default.
-/

namespace FindingFilter.Json

/-- The values of the members with the names given, in the order of the names. No such name may come
twice, and each name of the object must stand for a text. -/
def memberFields (names : List String) :
    List (Option (List Char) × Json) → Except Error (List (Option Json))
  | [] => .ok (names.map fun _ => none)
  | (none, _) :: _ => .error .badEscape
  | (some name, value) :: rest =>
    match memberFields names rest, names.idxOf? (String.ofList name) with
    | .error e, _ => .error e
    | .ok found, none => .ok found
    | .ok found, some i =>
      if (found.getD i none).isSome then .error (.duplicateField (String.ofList name))
      else .ok (found.set i (some value))

/-- The elements of an array as the values of fields in order. -/
def elementFields : List String → List Json → Except Error (List (Option Json))
  | [], [] => .ok []
  | [], _ :: _ => .error .extraElements
  | _ :: names, [] => return none :: (← elementFields names [])
  | _ :: names, value :: rest => return some value :: (← elementFields names rest)

/-- The values of the fields of a record, in the order of their names. -/
def fields (names : List String) : Json → Except Error (List (Option Json))
  | .object members => memberFields names members
  | .array elements => elementFields names elements
  | _ => .error (.wrongKind "an object or an array")

def toText : Json → Except Error String
  | .string (some text) => .ok (String.ofList text)
  | .string none => .error .badEscape
  | _ => .error (.wrongKind "a string")

def toBool : Json → Except Error Bool
  | .bool value => .ok value
  | _ => .error (.wrongKind "true or false")

/-- The natural number below a bound that is written with digits only. -/
def toNatBelow (bound : Nat) : Json → Except Error Nat
  | .number digits =>
    if digits.all Char.isDigit && Text.digitsValue digits < bound then .ok (Text.digitsValue digits)
    else .error .badNumber
  | _ => .error (.wrongKind "a number")

def toUInt32 (value : Json) : Except Error UInt32 :=
  (toNatBelow UInt32.size value).map UInt32.ofNat

def toUInt64 (value : Json) : Except Error UInt64 :=
  (toNatBelow UInt64.size value).map UInt64.ofNat

def toListOf (read : Json → Except Error α) : Json → Except Error (List α)
  | .array elements => elements.mapM read
  | _ => .error (.wrongKind "an array")

/-- The value of a field that must be there. -/
def required (name : String) (read : Json → Except Error α) : Option Json → Except Error α
  | some value => read value
  | none => .error (.missingField name)

/-- The value of a field, or its default. -/
def optional (default : α) (read : Json → Except Error α) : Option Json → Except Error α
  | some value => read value
  | none => .ok default

end FindingFilter.Json
