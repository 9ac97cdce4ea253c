import FindingFilter.Proofs.RuleStore.Credit

/-!
# Rule stores — one store or many

Queries can be answered by one store in their order, or they can be shared out among several stores
of the same rules, which answer their shares side by side and whose flags are merged at the end.
`takeTurns` is the second way: a schedule says which store answers which query and in which order
all this happens, so that a share can be any set of queries, in any order, and the stores can take
turns in any way.

`takeTurns_answers_and_merge` says that the two ways cannot be told apart: every query gets the same
answer, and the merged flags are those of the one store. It rests on credit not depending on flags
(`creditOf?_markCredit`) nor on how a store was filled (`creditOf?_congr`), and on flags adding up.
-/

namespace FindingFilter.RuleStore

/-- What a store can be asked about a finding. -/
inductive Query where
  /-- Whether a rule covers it. -/
  | overall (finding : Finding)
  /-- Whether a rule about the finding's own file covers it. -/
  | inFile (finding : Finding)
  deriving DecidableEq

/-- The answer to a query, and the store after it. -/
def ask (store : RuleStore) : Query → Bool × RuleStore
  | .overall finding => store.suppresses finding
  | .inFile finding => store.suppressesInFile finding

/-- The position that gets the credit in a query. -/
def creditOf? (store : RuleStore) : Query → Option Nat
  | .overall finding => store.creditFor? finding
  | .inFile finding => store.creditInFileFor? finding

/-- The answers to queries in order, and the store after them. -/
def askAll (store : RuleStore) : List Query → List Bool × RuleStore
  | [] => ([], store)
  | query :: rest =>
    let (answer, store) := store.ask query
    let (answers, store) := store.askAll rest
    (answer :: answers, store)

/-- Two stores hold the same rules with the same flags, and compare files the same way. Their
indices may have been made in different ways. -/
structure HasSameRules (store other : RuleStore) : Prop where
  matching : other.matching = store.matching
  rules : other.rules = store.rules
  flags : other.flags = store.flags

/-! ## One store -/

theorem ask_eq (store : RuleStore) (query : Query) :
    store.ask query =
      ((store.creditOf? query).isSome, store.markCredit (store.creditOf? query)) := by
  cases query with
  | overall finding => rfl
  | inFile finding => rfl

/-- Credit does not depend on flags. -/
theorem creditOf?_markCredit (store : RuleStore) (credit : Option Nat) :
    (store.markCredit credit).creditOf? = store.creditOf? := by
  obtain ⟨flags, -, hstep⟩ := markCredit_eq store credit
  rw [hstep]
  funext query
  cases query with
  | overall finding => rfl
  | inFile finding => rfl

theorem askAll_eq (store : RuleStore) (queries : List Query) :
    store.askAll queries =
      (queries.map fun query => (store.creditOf? query).isSome,
        store.markCredits (queries.map store.creditOf?)) := by
  induction queries generalizing store with
  | nil => rfl
  | cons query rest ih =>
    have hrest := ih (store.markCredit (store.creditOf? query))
    rw [creditOf?_markCredit] at hrest
    rw [askAll, ask_eq]
    simp only [hrest, List.map_cons, markCredits_cons]

/-- **Credit depends on the rules only.** Two well-formed stores of the same rules credit the same
position, as their indices are settled by the rules. -/
theorem creditOf?_congr {store other : RuleStore} (hstore : store.WellFormed)
    (hother : other.WellFormed) (hsame : store.HasSameRules other) :
    other.creditOf? = store.creditOf? := by
  have hsize : other.size = store.size := by rw [size, size, hsame.rules]
  have hcovers : other.coversAt = store.coversAt := by
    funext finding position
    rw [coversAt, coversAt, hsame.rules, hsame.matching]
  have habout : other.isAbout = store.isAbout := by
    funext file position
    rw [isAbout, isAbout, hsame.rules, hsame.matching]
  funext query
  cases query with
  | overall finding =>
    show other.creditFor? finding = store.creditFor? finding
    rw [creditFor?, creditFor?, hsize, hcovers]
  | inFile finding =>
    show other.creditInFileFor? finding = store.creditInFileFor? finding
    rw [creditInFileFor?, creditInFileFor?, hstore.positionsIn_eq, hother.positionsIn_eq, hsize,
      hcovers, habout]

/-- What is marked after queries to one store: what was before, and what some query credits. -/
theorem isMatched_askAll_iff {store : RuleStore} {queries : List Query} {position : Nat} :
    (store.askAll queries).2.isMatched position = true ↔
      store.isMatched position = true ∨
        position < store.flags.size ∧ ∃ query ∈ queries, store.creditOf? query = some position := by
  rw [askAll_eq, isMatched_markCredits]
  simp [and_comm]

/-! ## Several stores -/

/-- One turn of a schedule: a store answers a query, which has a number among all queries. -/
structure Turn (count : Nat) where
  worker : Fin count
  query : Query
  number : Nat

/-- The answers in the order of the schedule, each with the number of its query, and all stores
after the last turn. -/
def takeTurns {count : Nat} (workers : Fin count → RuleStore) :
    List (Turn count) → List (Bool × Nat) × (Fin count → RuleStore)
  | [] => ([], workers)
  | turn :: rest =>
    let (answer, store) := (workers turn.worker).ask turn.query
    let after := fun worker => if worker = turn.worker then store else workers worker
    let (answers, workers) := takeTurns after rest
    ((answer, turn.number) :: answers, workers)

section Turns

variable {count : Nat}

/-- A turn changes no store's credits. -/
theorem creditOf?_after_turn (workers : Fin count → RuleStore) (turn : Turn count)
    (worker : Fin count) :
    (if worker = turn.worker then
        (workers turn.worker).markCredit ((workers turn.worker).creditOf? turn.query)
      else workers worker).creditOf? = (workers worker).creditOf? := by
  split
  next h => rw [creditOf?_markCredit, h]
  next => rfl

/-- **What a schedule does**, told from the stores it starts with: every answer is whether there is
credit, and every store marks the credits of its own turns. Induction on the schedule. -/
theorem takeTurns_eq (workers : Fin count → RuleStore) (schedule : List (Turn count)) :
    takeTurns workers schedule =
      (schedule.map fun turn =>
          (((workers turn.worker).creditOf? turn.query).isSome, turn.number),
        fun worker => (workers worker).markCredits
          ((schedule.filter fun turn => turn.worker = worker).map fun turn =>
            (workers worker).creditOf? turn.query)) := by
  induction schedule generalizing workers with
  | nil => rfl
  | cons turn rest ih =>
    rw [takeTurns, ask_eq]
    simp only [ih, creditOf?_after_turn, List.map_cons, Prod.mk.injEq, true_and]
    funext worker
    by_cases hworker : turn.worker = worker
    · subst hworker
      simp [markCredits_cons]
    · have hother : ¬ worker = turn.worker := fun h => hworker h.symm
      simp [hworker, hother]

/-- Merging adds up flags, in whatever order and however often. -/
theorem isMatched_foldl_mergeFlags (store : RuleStore) (others : List RuleStore) (position : Nat) :
    (others.foldl mergeFlags store).isMatched position =
      (store.isMatched position ||
        (position < store.flags.size && others.any fun other => other.isMatched position)) := by
  induction others generalizing store with
  | nil => simp
  | cons other others ih =>
    have hsize : (store.mergeFlags other).flags.size = store.flags.size := Array.size_mapIdx
    rw [List.foldl_cons, ih, isMatched_mergeFlags, hsize, List.any_cons, Bool.or_assoc,
      ← Bool.and_or_distrib_left]

theorem size_flags_foldl_mergeFlags (store : RuleStore) (others : List RuleStore) :
    (others.foldl mergeFlags store).flags.size = store.flags.size := by
  induction others generalizing store with
  | nil => rfl
  | cons other others ih => rw [List.foldl_cons, ih, mergeFlags, Array.size_mapIdx]

/-- As many flags, each set in both stores or in none. -/
theorem flags_ext {store other : RuleStore} (hsize : store.flags.size = other.flags.size)
    (h : ∀ position, store.isMatched position = other.isMatched position) :
    store.flags = other.flags := by
  apply Array.ext hsize
  intro position hlt hlt'
  have := h position
  rw [isMatched, isMatched, Array.getD_eq_getD_getElem?, Array.getD_eq_getD_getElem?,
    Array.getElem?_eq_getElem hlt, Array.getElem?_eq_getElem hlt'] at this
  exact this

/-- What is marked in one of several stores of the same rules after a schedule: what was before, and
what some query of its own turns credits. -/
theorem isMatched_takeTurns_iff {store : RuleStore} {workers : Fin count → RuleStore}
    (hcredit : ∀ worker, (workers worker).creditOf? = store.creditOf?)
    (hflags : ∀ worker, (workers worker).flags = store.flags) {schedule : List (Turn count)}
    {worker : Fin count} {position : Nat} :
    ((takeTurns workers schedule).2 worker).isMatched position = true ↔
      store.isMatched position = true ∨ position < store.flags.size ∧
        ∃ turn ∈ schedule, turn.worker = worker ∧ store.creditOf? turn.query = some position := by
  have hbefore : (workers worker).isMatched position = store.isMatched position := by
    rw [isMatched, isMatched, hflags]
  rw [takeTurns_eq, isMatched_markCredits, hbefore, hcredit, hflags, Bool.or_eq_true,
    Bool.and_eq_true, List.contains_iff_mem, List.mem_map]
  simp only [List.mem_filter, decide_eq_true_eq, and_assoc]
  rw [and_comm]

/-- A schedule for the queries of a list puts to the stores exactly those queries. -/
theorem exists_turn_iff {schedule : List (Turn count)} {queries : List Query}
    (hschedule : (schedule.map fun turn => (turn.query, turn.number)).Perm queries.zipIdx)
    {P : Query → Prop} : (∃ turn ∈ schedule, P turn.query) ↔ ∃ query ∈ queries, P query := by
  have hqueries : (schedule.map Turn.query).Perm queries := by
    have := hschedule.map Prod.fst
    rwa [List.map_map, List.zipIdx_map_fst] at this
  constructor
  · rintro ⟨turn, hturn, hP⟩
    exact ⟨turn.query, hqueries.subset (List.mem_map_of_mem hturn), hP⟩
  · rintro ⟨query, hquery, hP⟩
    obtain ⟨turn, hturn, rfl⟩ := List.mem_map.mp (hqueries.symm.subset hquery)
    exact ⟨turn, hturn, hP⟩

end Turns

/-- **Sharing out the queries changes nothing.** The queries of a list are put to stores of the same
rules, each query to one of them, in any order. Then every query gets the answer that one store
would have given, asked in the order of the list; and when all stores are merged into one of them,
in any order and each once or more, its flags are those of the one store. -/
theorem takeTurns_answers_and_merge {count : Nat} {store : RuleStore}
    {workers : Fin count → RuleStore} {queries : List Query} {schedule : List (Turn count)}
    {target : Fin count} {sources : List (Fin count)} (hstore : store.Reachable)
    (hworkers : ∀ worker, (workers worker).Reachable ∧ store.HasSameRules (workers worker))
    (hschedule : (schedule.map fun turn => (turn.query, turn.number)).Perm queries.zipIdx)
    (hsources : ∀ worker, worker ≠ target → worker ∈ sources) :
    (takeTurns workers schedule).1.Perm (store.askAll queries).1.zipIdx ∧
      ((sources.map (takeTurns workers schedule).2).foldl mergeFlags
        ((takeTurns workers schedule).2 target)).flags = (store.askAll queries).2.flags := by
  have hcredit (worker : Fin count) : (workers worker).creditOf? = store.creditOf? :=
    creditOf?_congr hstore.wellFormed (hworkers worker).1.wellFormed (hworkers worker).2
  have hflags (worker : Fin count) : (workers worker).flags = store.flags :=
    (hworkers worker).2.flags
  constructor
  · have hanswers := hschedule.map (Prod.map (fun query => (store.creditOf? query).isSome) id)
    rw [List.map_map, List.map_zipIdx] at hanswers
    rw [takeTurns_eq, askAll_eq]
    simp only [hcredit]
    exact hanswers
  · have hsizeAll : (store.askAll queries).2.flags.size = store.flags.size := by
      rw [askAll_eq, size_flags_markCredits]
    have hsizeTarget : ((takeTurns workers schedule).2 target).flags.size = store.flags.size := by
      rw [takeTurns_eq, size_flags_markCredits, hflags]
    apply flags_ext
    · rw [size_flags_foldl_mergeFlags, hsizeTarget, hsizeAll]
    · intro position
      rw [isMatched_foldl_mergeFlags, hsizeTarget, Bool.eq_iff_iff, isMatched_askAll_iff,
        ← exists_turn_iff hschedule]
      simp only [Bool.or_eq_true, Bool.and_eq_true, decide_eq_true_eq, List.any_map,
        List.any_eq_true, Function.comp, isMatched_takeTurns_iff hcredit hflags]
      constructor
      · rintro ((hset | ⟨hlt, turn, hturn, -, hposition⟩) |
          ⟨hlt, source, -, hset | ⟨-, turn, hturn, -, hposition⟩⟩)
        · exact Or.inl hset
        · exact Or.inr ⟨hlt, turn, hturn, hposition⟩
        · exact Or.inl hset
        · exact Or.inr ⟨hlt, turn, hturn, hposition⟩
      · rintro (hset | ⟨hlt, turn, hturn, hposition⟩)
        · exact Or.inl (Or.inl hset)
        · -- The turn was taken by the target itself, or by a store that is merged into it.
          by_cases hworker : turn.worker = target
          · exact Or.inl (Or.inr ⟨hlt, turn, hturn, hworker, hposition⟩)
          · exact Or.inr ⟨hlt, turn.worker, hsources _ hworker,
              Or.inr ⟨hlt, turn, hturn, rfl, hposition⟩⟩

/-- Two stores take three queries, the last of the list first; the second is merged twice. -/
theorem takeTurns_two_stores :
    let store := ((empty .literal).perform (.addLine "nullPointer:a.c")).perform (.addText "memleak")
    let workers : Fin 2 → RuleStore := fun _ => store
    let leak : Finding := { id := "memleak", file := "b.c" }
    let null : Finding := { id := "nullPointer", file := "a.c", line := 3 }
    let queries : List Query := [.overall leak, .inFile null, .overall null]
    let schedule : List (Turn 2) :=
      [⟨1, .overall null, 2⟩, ⟨0, .overall leak, 0⟩, ⟨1, .inFile null, 1⟩]
    store.Reachable ∧ (∀ worker, (workers worker).Reachable ∧ store.HasSameRules (workers worker)) ∧
      (schedule.map fun turn => (turn.query, turn.number)).Perm queries.zipIdx ∧
      (∀ worker : Fin 2, worker ≠ 0 → worker ∈ [(1 : Fin 2), 1]) ∧
      (takeTurns workers schedule).1.Perm (store.askAll queries).1.zipIdx ∧
      (([(1 : Fin 2), 1].map (takeTurns workers schedule).2).foldl mergeFlags
        ((takeTurns workers schedule).2 0)).flags = (store.askAll queries).2.flags := by
  intro store workers leak null queries schedule
  have hstore : store.Reachable := ((Reachable.empty .literal).perform _).perform _
  have hworkers (worker : Fin 2) :
      (workers worker).Reachable ∧ store.HasSameRules (workers worker) := ⟨hstore, rfl, rfl, rfl⟩
  have hschedule : (schedule.map fun turn => (turn.query, turn.number)).Perm queries.zipIdx := by
    decide
  have hsources (worker : Fin 2) : worker ≠ 0 → worker ∈ [(1 : Fin 2), 1] := by
    revert worker
    decide
  refine ⟨hstore, hworkers, hschedule, hsources, ?_⟩
  exact takeTurns_answers_and_merge hstore hworkers hschedule hsources

end FindingFilter.RuleStore
