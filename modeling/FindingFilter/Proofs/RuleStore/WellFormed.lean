import FindingFilter.Proofs.RuleStore.Reachable

/-!
# Rule stores — rules, flags and indices in step

A store keeps four things side by side: the rules, their flags, the positions of the rules about one
file under its name, and the positions of all others. `WellFormed` says how they belong together:
each index lists, in ascending order, exactly the positions whose rules belong into it.

A rule that is accepted enters all four at once, which is `entered`; setting flags touches no other
part. So every reachable store is well-formed (`Reachable.wellFormed`).
-/

namespace FindingFilter.RuleStore

/-- Whether the rule at a position is about the file with exactly this name and no other. -/
def isAbout (store : RuleStore) (file : String) (position : Nat) : Bool :=
  match store.rules[position]? with
  | some rule => rule.scope store.matching == .oneFile && rule.file == file
  | none => false

/-- Whether the rule at a position is not about one file. -/
def isAcross (store : RuleStore) (position : Nat) : Bool :=
  match store.rules[position]? with
  | some rule => rule.scope store.matching == .anyFile
  | none => false

/-- Rules, flags and indices are in step. -/
structure WellFormed (store : RuleStore) : Prop where
  /-- Every rule has its flag. -/
  size_flags : store.flags.size = store.rules.size
  /-- No rule with a refused id is in the store. -/
  check_rule : ∀ rule ∈ store.rules, rule.check = .ok ()
  /-- A rule that came in as matched has its flag set. -/
  isMatched_of_matched : ∀ {position : Nat} {rule : Rule}, store.rules[position]? = some rule →
    rule.matched = true → store.isMatched position = true
  positionsIn_eq : ∀ file, store.positionsIn file =
    (List.range store.size).filter (store.isAbout file)
  acrossFiles_eq : store.acrossFiles.toList = (List.range store.size).filter store.isAcross

/-! ## A rule enters -/

/-- The store with one more rule at its end, whatever the id of the rule. -/
def entered (store : RuleStore) (rule : Rule) : RuleStore where
  matching := store.matching
  rules := store.rules.push rule
  flags := store.flags.push rule.matched
  byFile :=
    if rule.scope store.matching = .oneFile then
      store.byFile.alter rule.file fun positions => some ((positions.getD #[]).push store.size)
    else store.byFile
  acrossFiles :=
    if rule.scope store.matching = .anyFile then store.acrossFiles.push store.size
    else store.acrossFiles

/-- A rule is accepted if and only if its id passes the check, and then it enters the store. -/
theorem add_eq_ok_iff {store changed : RuleStore} {rule : Rule} :
    store.add rule = .ok changed ↔ rule.check = .ok () ∧ changed = store.entered rule := by
  unfold add
  cases hcheck : rule.check with
  | error cause => simp
  | ok =>
    cases hscope : rule.scope store.matching with
    | oneFile => simp [entered, hscope, size, eq_comm]
    | anyFile => simp [entered, hscope, size, eq_comm]

section Entered

variable (store : RuleStore) (rule : Rule)

@[simp] theorem size_entered : (store.entered rule).size = store.size + 1 := by
  simp [size, entered]

/-- The earlier rules stay where they are. -/
theorem getElem?_rules_entered (position : Nat) :
    (store.entered rule).rules[position]? =
      if position = store.size then some rule else store.rules[position]? := by
  show (store.rules.push rule)[position]? = _
  rw [Array.getElem?_push]
  rfl

theorem isMatched_entered (hsize : store.flags.size = store.rules.size) (position : Nat) :
    (store.entered rule).isMatched position =
      if position = store.size then rule.matched else store.isMatched position := by
  have hget : (store.flags.push rule.matched)[position]? =
      if position = store.size then some rule.matched else store.flags[position]? := by
    rw [Array.getElem?_push, hsize]
    rfl
  show (store.flags.push rule.matched).getD position false = _
  rw [Array.getD_eq_getD_getElem?, hget, isMatched, Array.getD_eq_getD_getElem?]
  split
  · rfl
  · rfl

/-- The file index gains the new position under the name of the new rule's file. -/
theorem positionsIn_entered (file : String) :
    (store.entered rule).positionsIn file =
      store.positionsIn file ++
        if rule.scope store.matching == .oneFile && rule.file == file then [store.size] else [] := by
  unfold positionsIn entered
  by_cases hscope : rule.scope store.matching = .oneFile
  · by_cases hfile : rule.file = file
    · subst hfile
      simp [hscope, Std.HashMap.getD_eq_getD_getElem?]
    · simp [hscope, hfile, Std.HashMap.getD_alter]
  · simp [hscope]

theorem acrossFiles_entered :
    (store.entered rule).acrossFiles.toList =
      store.acrossFiles.toList ++
        if rule.scope store.matching == .anyFile then [store.size] else [] := by
  unfold entered
  by_cases hscope : rule.scope store.matching = .anyFile
  · simp [hscope]
  · simp [hscope]

/-- The positions with a property are the old ones, and the new one if it has the property. -/
theorem filter_range_entered {p q : Nat → Bool}
    (h : ∀ position < store.size, q position = p position) :
    (List.range (store.entered rule).size).filter q =
      (List.range store.size).filter p ++ if q store.size then [store.size] else [] := by
  rw [size_entered, List.range_succ, List.filter_append,
    List.filter_congr fun position hmem => h position (List.mem_range.mp hmem)]
  cases hq : q store.size <;> simp [hq]

end Entered

theorem WellFormed.entered {store : RuleStore} {rule : Rule} (h : store.WellFormed)
    (hcheck : rule.check = .ok ()) : (store.entered rule).WellFormed where
  size_flags := by
    show (store.flags.push rule.matched).size = (store.rules.push rule).size
    rw [Array.size_push, Array.size_push, h.size_flags]
  check_rule := by
    intro other hmem
    rcases Array.mem_push.mp hmem with hold | rfl
    · exact h.check_rule other hold
    · exact hcheck
  isMatched_of_matched := by
    intro position other hother hmatched
    rw [getElem?_rules_entered] at hother
    rw [isMatched_entered store rule h.size_flags]
    split at hother
    next heq =>
      cases hother
      rw [if_pos heq, hmatched]
    next hne =>
      rw [if_neg hne]
      exact h.isMatched_of_matched hother hmatched
  positionsIn_eq := by
    intro file
    have hold (position : Nat) (hlt : position < store.size) :
        (store.entered rule).isAbout file position = store.isAbout file position := by
      unfold isAbout
      rw [getElem?_rules_entered, if_neg (Nat.ne_of_lt hlt)]
      rfl
    have hnew : (store.entered rule).isAbout file store.size =
        (rule.scope store.matching == .oneFile && rule.file == file) := by
      unfold isAbout
      rw [getElem?_rules_entered, if_pos rfl]
      rfl
    rw [positionsIn_entered, filter_range_entered store rule hold, hnew, h.positionsIn_eq]
  acrossFiles_eq := by
    have hold (position : Nat) (hlt : position < store.size) :
        (store.entered rule).isAcross position = store.isAcross position := by
      unfold isAcross
      rw [getElem?_rules_entered, if_neg (Nat.ne_of_lt hlt)]
      rfl
    have hnew : (store.entered rule).isAcross store.size =
        (rule.scope store.matching == .anyFile) := by
      unfold isAcross
      rw [getElem?_rules_entered, if_pos rfl]
      rfl
    rw [acrossFiles_entered, filter_range_entered store rule hold, hnew, h.acrossFiles_eq]

/-- Rules whose ids pass the check enter one after another, with their flags. -/
theorem addAll_of_check {rules : List Rule} (store : RuleStore)
    (hcheck : ∀ rule ∈ rules, rule.check = .ok ()) :
    (store.addAll rules).store.matching = store.matching ∧
      (store.addAll rules).store.rules.toList = store.rules.toList ++ rules ∧
      (store.addAll rules).store.flags.toList = store.flags.toList ++ rules.map (·.matched) := by
  induction rules generalizing store with
  | nil => simp [addAll]
  | cons rule rest ih =>
    obtain ⟨hrule, hrest⟩ := List.forall_mem_cons.mp hcheck
    have hadd : store.add rule = .ok (store.entered rule) := add_eq_ok_iff.mpr ⟨hrule, rfl⟩
    obtain ⟨hmatching, hrules, hflags⟩ := ih (store.entered rule) hrest
    rw [addAll, hadd]
    refine ⟨hmatching, ?_, ?_⟩
    · rw [hrules]
      simp [entered]
    · rw [hflags]
      simp [entered]

/-! ## Flags are set -/

/-- What setting flags does to a store: more of them are set, and nothing else changes. -/
theorem WellFormed.setFlags {store : RuleStore} {flags : Array Bool} (h : store.WellFormed)
    (hsize : flags.size = store.flags.size)
    (hgrow : ∀ position, store.isMatched position = true → flags.getD position false = true) :
    { store with flags }.WellFormed where
  size_flags := hsize.trans h.size_flags
  check_rule := h.check_rule
  isMatched_of_matched := fun hrule hmatched => hgrow _ (h.isMatched_of_matched hrule hmatched)
  positionsIn_eq := h.positionsIn_eq
  acrossFiles_eq := h.acrossFiles_eq

/-- After a mark the flag at the position is set, if there is a rule at it. -/
theorem isMatched_mark (store : RuleStore) (marked position : Nat) :
    (store.mark marked).isMatched position =
      (store.isMatched position || (marked == position && marked < store.flags.size)) := by
  show (store.flags.setIfInBounds marked true).getD position false = _
  unfold isMatched
  rw [Array.getD_eq_getD_getElem?, Array.getD_eq_getD_getElem?, Array.getElem?_setIfInBounds]
  by_cases heq : marked = position
  · subst heq
    by_cases hlt : marked < store.flags.size
    · simp [hlt]
    · simp [hlt]
  · simp [heq]

/-- After a merge the flags of both stores are set, as far as the store has rules for them. -/
theorem isMatched_mergeFlags (store other : RuleStore) (position : Nat) :
    (store.mergeFlags other).isMatched position =
      (store.isMatched position || (position < store.flags.size && other.isMatched position)) := by
  show (store.flags.mapIdx fun position flag => flag || other.flags.getD position false).getD
    position false = _
  unfold isMatched
  simp only [Array.getD_eq_getD_getElem?, Array.getElem?_mapIdx]
  by_cases hlt : position < store.flags.size
  · simp [hlt]
  · simp [hlt]

theorem isClosed_wellFormed : IsClosed WellFormed where
  add := by
    intro store changed rule hadd h
    obtain ⟨hcheck, rfl⟩ := add_eq_ok_iff.mp hadd
    exact h.entered hcheck
  mark := by
    intro store marked h
    apply h.setFlags (Array.size_setIfInBounds ..)
    intro position hset
    have := isMatched_mark store marked position
    rw [hset, Bool.true_or] at this
    exact this
  mergeFlags := by
    intro store other h
    apply h.setFlags Array.size_mapIdx
    intro position hset
    have := isMatched_mergeFlags store other position
    rw [hset, Bool.true_or] at this
    exact this

theorem wellFormed_empty (matching : FileMatching) : (empty matching).WellFormed where
  size_flags := rfl
  check_rule := by intro rule hmem; simp [empty] at hmem
  isMatched_of_matched := by intro position rule hrule; simp [empty] at hrule
  positionsIn_eq := by intro file; simp [positionsIn, empty, size]
  acrossFiles_eq := rfl

/-- **Every store that operations lead to is well-formed.** -/
theorem Reachable.wellFormed {store : RuleStore} (h : store.Reachable) : store.WellFormed :=
  h.of_closed isClosed_wellFormed wellFormed_empty

end FindingFilter.RuleStore
