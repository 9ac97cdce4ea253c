import FindingFilter.Proofs.Rule.Check
import FindingFilter.Proofs.RuleStore.WellFormed

/-!
# Rule stores — what the indices hold, and what an operation keeps

The two indices split the positions of a store by the scope of the rule at each. This module reads
that off a well-formed store in the words of a client:

* **`mem_positionsIn_iff`**, **`mem_acrossFiles_iff`** — a position is in the index that its rule
  belongs to, and in no other;
* **`count_indexed`** — taken together, the indices hold every position once;
* **`perform_continues`** — an operation adds rules at the end and sets flags, and takes nothing
  back, even if it fails midway.

`Reachable.isIndexed_and_continued` puts them together for every store that operations lead to.
-/

namespace FindingFilter.RuleStore

/-- The positions whose rule has a property, in ascending order. -/
def positionsWhere (store : RuleStore) (p : Nat → Rule → Bool) : List Nat :=
  (List.range store.size).filter fun position => store.rules[position]?.any (p position)

/-- Everything that the indices hold, one index after the other. -/
def indexed (store : RuleStore) : List Nat :=
  store.acrossFiles.toList ++ store.byFile.toList.flatMap fun entry => entry.2.toList

section PositionsWhere

variable {store : RuleStore} {p : Nat → Rule → Bool}

theorem mem_positionsWhere {position : Nat} :
    position ∈ store.positionsWhere p ↔
      ∃ rule, store.rules[position]? = some rule ∧ p position rule = true := by
  rw [positionsWhere, List.mem_filter, List.mem_range, Option.any_eq_true]
  constructor
  · rintro ⟨-, rule, hread, hp⟩
    exact ⟨rule, hread, hp⟩
  · rintro ⟨rule, hread, hp⟩
    exact ⟨(Array.getElem?_eq_some_iff.mp hread).1, rule, hread, hp⟩

theorem pairwise_positionsWhere : (store.positionsWhere p).Pairwise (· < ·) :=
  List.pairwise_lt_range.filter _

/-- Of some positions, those with one more property. -/
theorem filter_positionsWhere {q : Nat → Bool} {r : Nat → Rule → Bool}
    (h : ∀ {position rule}, store.rules[position]? = some rule → q position = r position rule) :
    (store.positionsWhere p).filter q =
      store.positionsWhere fun position rule => p position rule && r position rule := by
  rw [positionsWhere, positionsWhere, List.filter_filter]
  apply List.filter_congr
  rintro position -
  cases hread : store.rules[position]? with
  | none => simp
  | some rule => simp [h hread, Bool.and_comm]

/-- Two stores of the same rules have the same positions, if the properties agree on these rules. -/
theorem positionsWhere_congr {other : RuleStore} {q : Nat → Rule → Bool}
    (hrules : other.rules = store.rules)
    (h : ∀ {position rule}, store.rules[position]? = some rule → q position rule = p position rule) :
    other.positionsWhere q = store.positionsWhere p := by
  rw [positionsWhere, positionsWhere, size, size, hrules]
  apply List.filter_congr
  rintro position -
  cases hread : store.rules[position]? with
  | none => rfl
  | some rule => exact h hread

end PositionsWhere

/-! ## What the indices hold -/

section WellFormed

variable {store : RuleStore} (h : store.WellFormed)

include h

theorem WellFormed.positionsIn_eq_where (file : String) :
    store.positionsIn file = store.positionsWhere fun _ rule =>
      rule.scope store.matching == .oneFile && rule.file == file := by
  rw [h.positionsIn_eq, positionsWhere]
  apply List.filter_congr
  rintro position -
  unfold isAbout
  cases store.rules[position]? with
  | none => rfl
  | some rule => rfl

theorem WellFormed.acrossFiles_eq_where :
    store.acrossFiles.toList = store.positionsWhere fun _ rule =>
      rule.scope store.matching == .anyFile := by
  rw [h.acrossFiles_eq, positionsWhere]
  apply List.filter_congr
  rintro position -
  unfold isAcross
  cases store.rules[position]? with
  | none => rfl
  | some rule => rfl

theorem WellFormed.mem_positionsIn_iff {file : String} {position : Nat} :
    position ∈ store.positionsIn file ↔
      ∃ rule, store.rules[position]? = some rule ∧ rule.scope store.matching = .oneFile ∧
        rule.file = file := by
  simp only [h.positionsIn_eq_where, mem_positionsWhere, Bool.and_eq_true, beq_iff_eq]

theorem WellFormed.mem_acrossFiles_iff {position : Nat} :
    position ∈ store.acrossFiles.toList ↔
      ∃ rule, store.rules[position]? = some rule ∧ rule.scope store.matching = .anyFile := by
  simp only [h.acrossFiles_eq_where, mem_positionsWhere, beq_iff_eq]

omit h in
/-- An entry of the file index is what is found under its name. -/
theorem positionsIn_of_mem_toList {entry : String × Array Nat}
    (hentry : entry ∈ store.byFile.toList) : store.positionsIn entry.1 = entry.2.toList := by
  have hread : store.byFile[entry.1]? = some entry.2 :=
    Std.HashMap.mem_toList_iff_getElem?_eq_some.mp hentry
  rw [positionsIn, Std.HashMap.getD_eq_getD_getElem?, hread]
  rfl

omit h in
/-- What is found under a name is in an entry of the file index. -/
theorem exists_mem_toList_of_mem_positionsIn {file : String} {position : Nat}
    (hmem : position ∈ store.positionsIn file) :
    ∃ entry ∈ store.byFile.toList, position ∈ entry.2.toList := by
  rw [positionsIn, Std.HashMap.getD_eq_getD_getElem?] at hmem
  cases hread : store.byFile[file]? with
  | none =>
    rw [hread] at hmem
    cases hmem
  | some positions =>
    rw [hread] at hmem
    exact ⟨(file, positions), Std.HashMap.mem_toList_iff_getElem?_eq_some.mpr hread, hmem⟩

/-- The indices hold the positions of the store and nothing else. -/
theorem WellFormed.mem_indexed_iff {position : Nat} :
    position ∈ store.indexed ↔ position < store.size := by
  rw [indexed, List.mem_append, List.mem_flatMap, h.mem_acrossFiles_iff]
  constructor
  · rintro (⟨rule, hread, -⟩ | ⟨entry, hentry, hmem⟩)
    · exact (Array.getElem?_eq_some_iff.mp hread).1
    · rw [← positionsIn_of_mem_toList hentry, h.mem_positionsIn_iff] at hmem
      obtain ⟨rule, hread, -⟩ := hmem
      exact (Array.getElem?_eq_some_iff.mp hread).1
  · -- The scope of the rule says in which index its position is.
    intro hlt
    have hread : store.rules[position]? = some store.rules[position] :=
      Array.getElem?_eq_getElem hlt
    cases hscope : store.rules[position].scope store.matching with
    | anyFile => exact Or.inl ⟨_, hread, hscope⟩
    | oneFile =>
      have hmem : position ∈ store.positionsIn store.rules[position].file :=
        h.mem_positionsIn_iff.mpr ⟨_, hread, hscope, rfl⟩
      exact Or.inr (exists_mem_toList_of_mem_positionsIn hmem)

theorem WellFormed.nodup_indexed : store.indexed.Nodup := by
  rw [indexed, List.nodup_append]
  refine ⟨?_, ?_, ?_⟩
  · rw [h.acrossFiles_eq_where]
    exact pairwise_positionsWhere.imp Nat.ne_of_lt
  · rw [List.Nodup, List.pairwise_flatMap]
    constructor
    · intro entry hentry
      rw [← positionsIn_of_mem_toList hentry, h.positionsIn_eq_where]
      exact pairwise_positionsWhere.imp Nat.ne_of_lt
    · -- A position in two entries: its rule would be about two files.
      apply Std.HashMap.distinct_keys_toList.imp_of_mem
      rintro entry other hentry hother hnames position hmem _ hmem' rfl
      rw [← positionsIn_of_mem_toList hentry, h.mem_positionsIn_iff] at hmem
      rw [← positionsIn_of_mem_toList hother, h.mem_positionsIn_iff] at hmem'
      obtain ⟨rule, hread, -, hfile⟩ := hmem
      obtain ⟨rule', hread', -, hfile'⟩ := hmem'
      cases hread.symm.trans hread'
      rw [← hfile, ← hfile', beq_self_eq_true] at hnames
      cases hnames
  · -- A position in both indices: its rule would have two scopes.
    rintro position hacross _ hmem rfl
    rw [h.mem_acrossFiles_iff] at hacross
    obtain ⟨entry, hentry, hmem⟩ := List.mem_flatMap.mp hmem
    rw [← positionsIn_of_mem_toList hentry, h.mem_positionsIn_iff] at hmem
    obtain ⟨rule, hread, hscope⟩ := hacross
    obtain ⟨rule', hread', hscope', -⟩ := hmem
    cases hread.symm.trans hread'
    rw [hscope] at hscope'
    cases hscope'

theorem WellFormed.count_indexed {position : Nat} (hlt : position < store.size) :
    store.indexed.count position = 1 := by
  rw [h.nodup_indexed.count, if_pos (h.mem_indexed_iff.mpr hlt)]

end WellFormed

/-! ## What an operation keeps -/

/-- A store goes on from another: it has the rules of the other in front, in the same places, and
has set every flag that the other had set. -/
structure IsContinuedBy (store later : RuleStore) : Prop where
  matching : later.matching = store.matching
  rules_prefix : store.rules.toList <+: later.rules.toList
  isMatched : ∀ {position : Nat}, store.isMatched position = true → later.isMatched position = true

/-- A flag that is set has a place among the flags, which a push does not touch. -/
theorem isMatched_entered_of_isMatched {store : RuleStore} {rule : Rule} {position : Nat}
    (hset : store.isMatched position = true) : (store.entered rule).isMatched position = true := by
  show (store.flags.push rule.matched).getD position false = true
  rw [isMatched, Array.getD_eq_getD_getElem?] at hset
  rw [Array.getD_eq_getD_getElem?]
  cases hflag : store.flags[position]? with
  | none =>
    rw [hflag] at hset
    cases hset
  | some flag =>
    have hlt : position < store.flags.size := (Array.getElem?_eq_some_iff.mp hflag).1
    rw [Array.getElem?_push_lt hlt, ← Array.getElem?_eq_getElem hlt]
    exact hset

theorem isClosed_isContinuedBy (store : RuleStore) : IsClosed store.IsContinuedBy where
  add := by
    intro later changed rule hadd h
    obtain ⟨-, rfl⟩ := add_eq_ok_iff.mp hadd
    refine ⟨h.matching, ?_, fun hset => isMatched_entered_of_isMatched (h.isMatched hset)⟩
    have hpush : (later.entered rule).rules.toList = later.rules.toList ++ [rule] :=
      Array.toList_push
    rw [hpush]
    exact h.rules_prefix.trans (List.prefix_append ..)
  mark := by
    intro later marked h
    refine ⟨h.matching, h.rules_prefix, ?_⟩
    intro position hset
    rw [isMatched_mark, h.isMatched hset, Bool.true_or]
  mergeFlags := by
    intro later other h
    refine ⟨h.matching, h.rules_prefix, ?_⟩
    intro position hset
    rw [isMatched_mergeFlags, h.isMatched hset, Bool.true_or]

/-- **An operation takes nothing back**, whether it succeeds or fails. -/
theorem perform_continues (store : RuleStore) (operation : Operation) :
    store.IsContinuedBy (store.perform operation) :=
  perform_closed (isClosed_isContinuedBy store) ⟨rfl, List.prefix_refl _, id⟩ operation

/-! ## Every reachable store -/

/-- The four parts of a store are in step, told from each of them. -/
structure IsIndexed (store : RuleStore) : Prop where
  /-- Every rule has its flag. -/
  size_flags : store.flags.size = store.rules.size
  /-- Every position stands once in one of the indices. -/
  count_indexed : ∀ position < store.size, store.indexed.count position = 1
  ascending_byFile : ∀ {file : String} {positions : Array Nat},
    store.byFile[file]? = some positions → positions.toList.Pairwise (· < ·)
  ascending_acrossFiles : store.acrossFiles.toList.Pairwise (· < ·)
  mem_positionsIn_iff : ∀ {file : String} {position : Nat},
    position ∈ store.positionsIn file ↔
      ∃ rule, store.rules[position]? = some rule ∧ rule.scope store.matching = .oneFile ∧
        rule.file = file
  mem_acrossFiles_iff : ∀ {position : Nat},
    position ∈ store.acrossFiles.toList ↔
      ∃ rule, store.rules[position]? = some rule ∧ rule.scope store.matching = .anyFile
  /-- Every rule has an id that rules may carry. -/
  id_rule : ∀ rule ∈ store.rules, rule.id = Rule.anyId ∨ Rule.IsName rule.id

theorem WellFormed.isIndexed {store : RuleStore} (h : store.WellFormed) : store.IsIndexed where
  size_flags := h.size_flags
  count_indexed := fun _ hlt => h.count_indexed hlt
  ascending_byFile := by
    intro file positions hread
    have hentry := Std.HashMap.mem_toList_iff_getElem?_eq_some.mpr hread
    rw [← positionsIn_of_mem_toList hentry, h.positionsIn_eq_where]
    exact pairwise_positionsWhere
  ascending_acrossFiles := by
    rw [h.acrossFiles_eq_where]
    exact pairwise_positionsWhere
  mem_positionsIn_iff := h.mem_positionsIn_iff
  mem_acrossFiles_iff := h.mem_acrossFiles_iff
  id_rule := fun rule hmem => Rule.check_eq_ok_iff.mp (h.check_rule rule hmem)

/-- **The invariant of stores.** In every store that operations lead to, failing ones included, the
rules, their flags and the two indices are in step; and every further operation leaves the rules
that are there where they are, and the flags that are set as they are. -/
theorem Reachable.isIndexed_and_continued {store : RuleStore} (h : store.Reachable) :
    store.IsIndexed ∧ ∀ operation, store.IsContinuedBy (store.perform operation) :=
  ⟨h.wellFormed.isIndexed, perform_continues store⟩

/-- A text whose third line is refused adds two rules, the second about a pattern of files, and the
first of them is marked. -/
theorem isIndexed_after_refused_line :
    let store := ((empty .glob).perform (.addText "leak:a.c\nleak:*.c\n1bad\nnull")).perform
      (.suppresses { id := "leak", file := "a.c" })
    store.Reachable ∧ store.size = 2 ∧ store.flags = #[true, false] ∧ store.IsIndexed ∧
      ∀ operation, store.IsContinuedBy (store.perform operation) := by
  intro store
  have hstore : store.Reachable := ((Reachable.empty .glob).perform _).perform _
  have hsize : store.size = 2 := by decide +kernel
  have hflags : store.flags = #[true, false] := by decide +kernel
  exact ⟨hstore, hsize, hflags, hstore.isIndexed_and_continued⟩

end FindingFilter.RuleStore
