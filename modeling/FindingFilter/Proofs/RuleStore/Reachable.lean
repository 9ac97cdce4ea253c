import FindingFilter.RuleStore.Loading

/-!
# Rule stores — the stores that operations lead to

A store starts empty and is changed by nine operations, six that load rules and three that set
flags. `Reachable` collects the stores that any sequence of them leads to, failing ones included: an
operation that fails leaves the store as it stood when it failed.

However a source of rules is read, its rules enter the store through `add`, and however a flag is
set, it is set by `mark` or `mergeFlags`. So a property that those three keep holds of every
reachable store; `perform_closed` and `Reachable.of_closed` package the two inductions behind this.
-/

namespace FindingFilter.RuleStore

/-- What can be done to a store. -/
inductive Operation where
  | add (rule : Rule)
  | addLine (line : String)
  | addText (content : String)
  | addBytes (content : ByteArray)
  | addXml (document : String)
  | addXmlFile (tree : FileTree) (path : String)
  | suppresses (finding : Finding)
  | suppressesInFile (finding : Finding)
  | mergeFlags (other : RuleStore)

/-- The store after an attempt to change it, which may have failed. -/
def orElse (store : RuleStore) : Except RuleError RuleStore → RuleStore
  | .ok changed => changed
  | .error _ => store

/-- The store after an operation, whether it succeeds or fails. -/
def perform (store : RuleStore) : Operation → RuleStore
  | .add rule => store.orElse (store.add rule)
  | .addLine line => store.orElse (store.addLine line)
  | .addText content => (store.addText content).store
  | .addBytes content => (store.addBytes content).store
  | .addXml document => (store.addXml document).store
  | .addXmlFile tree path => (store.addXmlFile tree path).store
  | .suppresses finding => (store.suppresses finding).2
  | .suppressesInFile finding => (store.suppressesInFile finding).2
  | .mergeFlags other => store.mergeFlags other

/-- The stores that operations lead to from an empty store. -/
inductive Reachable : RuleStore → Prop where
  | empty (matching : FileMatching) : Reachable (.empty matching)
  | perform {store : RuleStore} (h : Reachable store) (operation : Operation) :
      Reachable (store.perform operation)

/-- Rules that are added in order are added by operations, up to the first that is refused. -/
theorem Reachable.addAll {store : RuleStore} (h : store.Reachable) (rules : List Rule) :
    (store.addAll rules).store.Reachable := by
  induction rules generalizing store with
  | nil => exact h
  | cons rule rest ih =>
    have hstep := h.perform (.add rule)
    rw [RuleStore.addAll]
    cases hadd : store.add rule with
    | ok changed =>
      rw [RuleStore.perform, hadd] at hstep
      exact ih hstep
    | error cause => exact h

/-- A document that can be read adds the rules in it. -/
theorem perform_addXml {document : String} {rules : List Rule}
    (hread : Rule.ofXml document = .ok rules) (store : RuleStore) :
    store.perform (.addXml document) = (store.addAll rules).store := by
  rw [perform, addXml, hread]

/-! ## What every operation keeps -/

/-- A property that no way of changing a store can break: neither a rule that is added, nor a flag
that is set, nor the flags of another store. -/
structure IsClosed (P : RuleStore → Prop) : Prop where
  add : ∀ {store changed : RuleStore} {rule : Rule}, store.add rule = .ok changed → P store →
    P changed
  mark : ∀ {store : RuleStore} (position : Nat), P store → P (store.mark position)
  mergeFlags : ∀ {store : RuleStore} (other : RuleStore), P store → P (store.mergeFlags other)

section IsClosed

variable {P : RuleStore → Prop} {store : RuleStore}

theorem IsClosed.orElse_add (hP : IsClosed P) (h : P store) (rule : Rule) :
    P (store.orElse (store.add rule)) := by
  cases hadd : store.add rule with
  | ok changed => exact hP.add hadd h
  | error cause => exact h

/-- Induction on the rules: whichever of them is refused, those before it were added one by one. -/
theorem IsClosed.addAll (hP : IsClosed P) (h : P store) (rules : List Rule) :
    P (store.addAll rules).store := by
  induction rules generalizing store with
  | nil => exact h
  | cons rule rest ih =>
    rw [RuleStore.addAll]
    cases hadd : store.add rule with
    | ok changed => exact ih (hP.add hadd h)
    | error cause => exact h

theorem IsClosed.addXml (hP : IsClosed P) (h : P store) (document : String) :
    P (store.addXml document).store := by
  unfold RuleStore.addXml
  split
  · exact hP.addAll h _
  · exact h

theorem IsClosed.markCredit (hP : IsClosed P) (h : P store) (credit : Option Nat) :
    P (store.markCredit credit) := by
  cases credit with
  | some position => exact hP.mark position h
  | none => exact h

/-- **One operation keeps a closed property.** -/
theorem perform_closed (hP : IsClosed P) (h : P store) (operation : Operation) :
    P (store.perform operation) := by
  cases operation with
  | add rule => exact hP.orElse_add h rule
  | addLine line => exact hP.orElse_add h (Rule.ofLine line)
  | addText content => exact hP.addAll h _
  | addBytes content =>
    show P (store.addBytes content).store
    unfold addBytes
    split
    · exact hP.addAll h _
    · exact h
  | addXml document => exact hP.addXml h document
  | addXmlFile tree path =>
    show P (store.addXmlFile tree path).store
    unfold addXmlFile
    split
    · exact hP.addXml h _
    · exact h
  | suppresses finding => exact hP.markCredit h _
  | suppressesInFile finding => exact hP.markCredit h _
  | mergeFlags other => exact hP.mergeFlags other h

/-- **Every reachable store has the closed properties of the empty stores.** -/
theorem Reachable.of_closed (hP : IsClosed P) (hempty : ∀ matching, P (.empty matching))
    (h : Reachable store) : P store := by
  induction h with
  | empty matching => exact hempty matching
  | perform _ operation ih => exact perform_closed hP ih operation

end IsClosed

end FindingFilter.RuleStore
