import FindingFilter.Report
import FindingFilter.RuleStore.Basic

/-!
# Filters

A store of rules with the two settings that decide which rules are reported as idle. `apply` takes
the findings of a run through the store and gives the report together with the filter afterwards,
whose flags the next run adds to.
-/

namespace FindingFilter

/-- A store of rules, ready to be applied. -/
structure Filter where
  store : RuleStore
  /-- Whether the runs looked for unused functions, so that rules about them count as idle. -/
  unusedFunctions : Bool := false
  /-- Whether idle rules are reported at all. -/
  reportsUnmatched : Bool := true

/-- What a pass over findings leaves: those no rule covers, the number of the others, and the store
with the credited rules marked. -/
structure Sifted where
  kept : List Finding
  suppressed : Nat
  store : RuleStore

/-- Takes findings through a store in order. -/
def RuleStore.sift (store : RuleStore) : List Finding → Sifted
  | [] => ⟨[], 0, store⟩
  | finding :: rest =>
    let (covered, store) := store.suppresses finding
    let sifted := store.sift rest
    if covered then { sifted with suppressed := sifted.suppressed + 1 }
    else { sifted with kept := finding :: sifted.kept }

/-- A sorted list of names with one more name, unless it holds it already. -/
def insertName (name : String) : List String → List String
  | [] => [name]
  | first :: rest =>
    if name < first then name :: first :: rest
    else if name = first then first :: rest
    else first :: insertName name rest

/-- The files that a run is about, sorted and each once: those that were checked, in canonical form,
and those that findings name, as they name them. -/
def filesOf (checked : List String) (findings : List Finding) : List String :=
  let named := (findings.map (·.file)).filter (!·.isEmpty)
  (checked.map Path.canonical ++ named).foldl (fun files name => insertName name files) []

namespace Filter

/-- The filter that reports idle rules, except those about unused functions. -/
def ofStore (store : RuleStore) : Filter := { store }

/-- Whether a rule covers the finding, and the filter after the first such rule is marked. -/
def suppresses (filter : Filter) (finding : Finding) : Bool × Filter :=
  let (covered, store) := filter.store.suppresses finding
  (covered, { filter with store })

/-- The positions of the idle rules, file by file in the order given, then those of rules that are
not about one file. -/
def idlePositions (filter : Filter) (files : List String) : List Nat :=
  files.flatMap (fun file => filter.store.idleIn file filter.unusedFunctions)
    ++ filter.store.idleAcross filter.unusedFunctions

/-- The rules that covered nothing, in the order of `idlePositions`. -/
def unmatched (filter : Filter) (files : List String) : List Rule :=
  (filter.idlePositions files).filterMap filter.store.ruleAt?

def apply (filter : Filter) (findings : List Finding) (checked : List String) : Report × Filter :=
  let sifted := filter.store.sift findings
  -- Idle rules are asked for after the whole run.
  let after := { filter with store := sifted.store }
  let unmatched :=
    if filter.reportsUnmatched then after.unmatched (filesOf checked findings) else []
  let suppressed := UInt64.ofNat sifted.suppressed
  ({ findings := sifted.kept, suppressed, unmatched }, after)

end Filter

end FindingFilter
