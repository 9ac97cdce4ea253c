import FindingFilter.Path
import FindingFilter.Rule.Basic
import Std.Data.HashMap

/-!
# The store of rules

The rules in the order in which they were added, each with a flag that says whether it has covered a
finding. The first rule that covers a finding is credited with it, and only that one. Two indices
over the positions split the rules by scope: those about one file, found under the name of that
file, and all others.
-/

namespace FindingFilter

/-- Whether a rule is about one file, or about any file or a pattern of files. -/
inductive RuleScope where
  | oneFile
  | anyFile
  deriving DecidableEq, Repr

def RuleScope.label : RuleScope → String
  | .oneFile => "Local"
  | .anyFile => "Global"

/-- The scope of a rule: it is about one file if it names a file that is no pattern. -/
def Rule.scope (rule : Rule) (matching : FileMatching) : RuleScope :=
  if rule.hasFile && (matching == .literal || !Wildcard.hasWildcard rule.file.toList) then .oneFile
  else .anyFile

/-- The rules with their flags and their indices. -/
structure RuleStore where
  matching : FileMatching := .literal
  rules : Array Rule := #[]
  /-- At each position, whether the rule there has covered a finding. -/
  flags : Array Bool := #[]
  /-- The positions of the rules about one file, under its name. -/
  byFile : Std.HashMap String (Array Nat) := {}
  /-- The positions of all other rules. -/
  acrossFiles : Array Nat := #[]

namespace RuleStore

def empty (matching : FileMatching) : RuleStore := { matching }

def size (store : RuleStore) : Nat := store.rules.size

/-- The rules at the end of the store, with their positions entered under their scope. A rule whose
id is no rule id is refused. -/
def add (store : RuleStore) (rule : Rule) : Except RuleError RuleStore :=
  match rule.check with
  | .error e => .error e
  | .ok () =>
    let position := store.rules.size
    let indexed :=
      match rule.scope store.matching with
      | .oneFile =>
        let enter (positions : Option (Array Nat)) := some ((positions.getD #[]).push position)
        { store with byFile := store.byFile.alter rule.file enter }
      | .anyFile => { store with acrossFiles := store.acrossFiles.push position }
    .ok { indexed with
      rules := store.rules.push rule
      flags := store.flags.push rule.matched }

/-- The positions of the rules about the file with exactly this name, in ascending order. -/
def positionsIn (store : RuleStore) (file : String) : List Nat :=
  (store.byFile.getD file #[]).toList

def coversAt (store : RuleStore) (finding : Finding) (position : Nat) : Bool :=
  match store.rules[position]? with
  | some rule => rule.covers store.matching finding
  | none => false

/-- The position of the first rule that covers the finding. -/
def creditFor? (store : RuleStore) (finding : Finding) : Option Nat :=
  (List.range store.size).find? (store.coversAt finding)

/-- The position of the first rule about the finding's own file that covers the finding. -/
def creditInFileFor? (store : RuleStore) (finding : Finding) : Option Nat :=
  (store.positionsIn finding.file).find? (store.coversAt finding)

def mark (store : RuleStore) (position : Nat) : RuleStore :=
  { store with flags := store.flags.setIfInBounds position true }

/-- The store with the flag set at the position that gets the credit, if any. -/
def markCredit (store : RuleStore) : Option Nat → RuleStore
  | some position => store.mark position
  | none => store

/-- Whether a rule covers the finding, and the store after the first such rule is marked. -/
def suppresses (store : RuleStore) (finding : Finding) : Bool × RuleStore :=
  let credit := store.creditFor? finding
  (credit.isSome, store.markCredit credit)

/-- As `suppresses`, but asks only the rules about the finding's own file. -/
def suppressesInFile (store : RuleStore) (finding : Finding) : Bool × RuleStore :=
  let credit := store.creditInFileFor? finding
  (credit.isSome, store.markCredit credit)

/-- Whether the rule at a position has covered a finding. -/
def isMatched (store : RuleStore) (position : Nat) : Bool :=
  store.flags.getD position false

/-- The rule at a position, with its flag as it stands now. -/
def ruleAt? (store : RuleStore) (position : Nat) : Option Rule :=
  (store.rules[position]?).map fun rule => { rule with matched := store.isMatched position }

def toList (store : RuleStore) : List Rule :=
  (List.range store.size).filterMap store.ruleAt?

/-- Whether the rule at a position is to be reported as one that covered nothing. Rules about unused
functions count only if unused functions were looked for. -/
def isIdle (store : RuleStore) (unusedFunctions : Bool) (position : Nat) : Bool :=
  match store.rules[position]? with
  | some rule => !store.isMatched position && (unusedFunctions || rule.id != Rule.unusedFunctionId)
  | none => false

/-- The positions of the idle rules about one file, whose name may be written with backslashes. -/
def idleIn (store : RuleStore) (file : String) (unusedFunctions : Bool) : List Nat :=
  (store.positionsIn (Path.canonical file)).filter (store.isIdle unusedFunctions)

/-- The positions of the idle rules that are not about one file. -/
def idleAcross (store : RuleStore) (unusedFunctions : Bool) : List Nat :=
  store.acrossFiles.toList.filter (store.isIdle unusedFunctions)

def unmatchedIn (store : RuleStore) (file : String) (unusedFunctions : Bool) : List Rule :=
  (store.idleIn file unusedFunctions).filterMap store.ruleAt?

def unmatchedAcross (store : RuleStore) (unusedFunctions : Bool) : List Rule :=
  (store.idleAcross unusedFunctions).filterMap store.ruleAt?

/-- The store with the flags of another store for the same rules added to its own, position by
position. -/
def mergeFlags (store other : RuleStore) : RuleStore :=
  { store with
    flags := store.flags.mapIdx fun position flag => flag || other.flags.getD position false }

end RuleStore

end FindingFilter
