import FindingFilter.Proofs.Wildcard.Machine
import Mathlib.Algebra.GroupWithZero.Nat

/-!
# Wildcard — saved places and rounds

How much the machine keeps, and how often it comes back to what it keeps. Both are told step by step,
of a retry and of an advance.

* **`State.IsStacked`** — the saved places are the stars of the pattern that still have a choice,
  each further right than the one below it, and none further left in the name. So there are never
  more of them than the pattern has stars (`IsStacked.length_saved_le`).
* **`State.roundsLeft`** — a round is what the machine does from one retry to the next. A star has at
  most one choice more than the name has characters, so the rounds that are left are bounded by a
  power of that number, and the exponent is the number of stars. A retry makes the bound smaller
  (`IsRetry.roundsLeft_lt`), and no advance makes it greater (`IsAdvance.roundsLeft_le`).

`saved_isStacked_and_rounds` puts both together for whole runs.
-/

namespace FindingFilter.Wildcard

variable {pattern name : Array Char} {s s' : State}

/-! ## The saved places -/

/-- The lower place is at an earlier star, and not further on in the name. -/
def Place.IsBelow (lower upper : Place) : Prop :=
  lower.patternPos < upper.patternPos ∧ lower.namePos ≤ upper.namePos

/-- What holds of the saved places at every point of a run. -/
structure State.IsStacked (pattern name : Array Char) (s : State) : Prop where
  /-- The saved positions in the name are in front of its end. -/
  inBounds : s.InBounds name
  isStar : ∀ place ∈ s.saved, pattern[place.patternPos]? = some star
  /-- Each place is above those that were saved before it, and the two positions are above all. -/
  descends : (⟨s.patternPos, s.namePos⟩ :: s.saved : List Place).Pairwise
    fun upper lower => lower.IsBelow upper

/-- What is above some places stays above them when it moves on. -/
theorem pairwise_isBelow_raise {place other : Place} {saved : List Place}
    (h : (place :: saved).Pairwise fun upper lower => lower.IsBelow upper)
    (hpattern : place.patternPos ≤ other.patternPos) (hname : place.namePos ≤ other.namePos) :
    (other :: saved).Pairwise fun upper lower => lower.IsBelow upper := by
  obtain ⟨hplace, hsaved⟩ := List.pairwise_cons.mp h
  refine List.pairwise_cons.mpr ⟨fun lower hmem => ?_, hsaved⟩
  obtain ⟨hlt, hle⟩ := hplace lower hmem
  exact ⟨Nat.lt_of_lt_of_le hlt hpattern, Nat.le_trans hle hname⟩

theorem pairwise_isBelow_push {place other : Place} {saved : List Place}
    (h : (place :: saved).Pairwise fun upper lower => lower.IsBelow upper)
    (hbelow : place.IsBelow other) :
    (other :: place :: saved).Pairwise fun upper lower => lower.IsBelow upper := by
  refine List.pairwise_cons.mpr ⟨List.forall_mem_cons.mpr ⟨hbelow, fun lower hmem => ?_⟩, h⟩
  obtain ⟨hlt, hle⟩ := (List.pairwise_cons.mp h).1 lower hmem
  exact ⟨Nat.lt_trans hlt hbelow.1, Nat.le_trans hle hbelow.2⟩

theorem isStacked_start (pattern name : Array Char) : State.start.IsStacked pattern name where
  inBounds := ⟨Nat.zero_le _, fun _ hmem => absurd hmem List.not_mem_nil⟩
  isStar := fun _ hmem => absurd hmem List.not_mem_nil
  descends := List.pairwise_singleton _ _

/-- A retry goes on from the place that it takes, which was above the others. -/
theorem State.IsStacked.retry (h : s.IsStacked pattern name) (hstep : IsRetry s s') :
    s'.IsStacked pattern name := by
  obtain ⟨hbounds, hstar, hdescends⟩ := h
  obtain ⟨place, hsaved, hpattern, hname⟩ := isRetry_iff.mp hstep
  rw [hsaved] at hstar hdescends
  refine ⟨hbounds.retry hstep, (List.forall_mem_cons.mp hstar).2, ?_⟩
  rw [hpattern, hname]
  exact pairwise_isBelow_raise (List.pairwise_cons.mp hdescends).2 (Nat.le_refl _) (Nat.le_succ _)

/-- An advance moves the two positions up, and what it saves stays right below them. -/
theorem State.IsStacked.advance (h : s.IsStacked pattern name)
    (hstep : IsAdvance pattern name s s') : s'.IsStacked pattern name := by
  obtain ⟨hbounds, hstar, hdescends⟩ := h
  have hbounds' : s'.InBounds name := hbounds.advance hstep
  cases hstep with
  | pass hc hj hend =>
    exact ⟨hbounds', hstar, pairwise_isBelow_raise hdescends (Nat.le_succ _) hj⟩
  | @save j hc hj hend =>
    have hsaved : (⟨s.patternPos, j⟩ :: s.saved : List Place).Pairwise
        fun upper lower => lower.IsBelow upper :=
      pairwise_isBelow_raise hdescends (Nat.le_refl _) hj
    exact ⟨hbounds', List.forall_mem_cons.mpr ⟨hc, hstar⟩,
      pairwise_isBelow_push hsaved ⟨Nat.lt_succ_self _, Nat.le_refl _⟩⟩

/-- **One step keeps the saved places in order.** -/
theorem State.IsStacked.step (h : s.IsStacked pattern name)
    (hstep : step pattern name s = .goOn s') : s'.IsStacked pattern name := by
  rcases isRetry_or_isAdvance h.inBounds.1 hstep with hretry | hadvance
  · exact h.retry hretry
  · exact h.advance hadvance

/-! ## The number of saved places -/

/-- The number of stars of the pattern from a position on. -/
def starsFrom (pattern : Array Char) (i : Nat) : Nat :=
  (pattern.toList.drop i).count star

theorem starsFrom_of_star {i : Nat} (hi : pattern[i]? = some star) :
    starsFrom pattern i = starsFrom pattern (i + 1) + 1 := by
  rw [starsFrom, drop_of_getElem? hi, List.count_cons_self, starsFrom]

theorem starsFrom_le_of_le {i i' : Nat} (h : i ≤ i') :
    starsFrom pattern i' ≤ starsFrom pattern i :=
  (List.drop_sublist_drop_left pattern.toList h).count_le star

/-- Places in descending order, each at a star, are no more than the stars in front of what stands
above them. Induction on the places: the stars from one of them on are one more than those behind
it, and what is above it is behind it. -/
theorem length_add_starsFrom_le {saved : List Place} {above : Place}
    (hstar : ∀ place ∈ saved, pattern[place.patternPos]? = some star)
    (hdescends : (above :: saved).Pairwise fun upper lower => lower.IsBelow upper) :
    saved.length + starsFrom pattern above.patternPos ≤ pattern.toList.count star := by
  induction saved generalizing above with
  | nil =>
    rw [List.length_nil, Nat.zero_add]
    exact (List.drop_sublist _ _).count_le star
  | cons place saved ih =>
    obtain ⟨hplace, hrest⟩ := List.forall_mem_cons.mp hstar
    obtain ⟨habove, hsaved⟩ := List.pairwise_cons.mp hdescends
    have hlower : saved.length + starsFrom pattern place.patternPos ≤ pattern.toList.count star :=
      ih hrest hsaved
    have hupper : starsFrom pattern above.patternPos ≤ starsFrom pattern (place.patternPos + 1) :=
      starsFrom_le_of_le (habove place List.mem_cons_self).1
    rw [starsFrom_of_star hplace] at hlower
    rw [List.length_cons]
    omega

/-- **The stack never holds more places than the pattern has stars**, not even together with the
stars that are still ahead. -/
theorem State.IsStacked.length_saved_le (h : s.IsStacked pattern name) :
    s.saved.length + starsFrom pattern s.patternPos ≤ pattern.toList.count star :=
  length_add_starsFrom_le h.isStar h.descends

/-! ## The number of rounds -/

/-- A bound on the rounds from a pair of positions on, their own saved places included: a choice
from what is left of the name, its end among it, for each star that is left. -/
def roundsFrom (pattern name : Array Char) (i j : Nat) : Nat :=
  (name.size + 1 - j) ^ starsFrom pattern i

/-- A bound on the rounds that are left in a state, the one that is under way included. -/
def State.roundsLeft (pattern name : Array Char) (s : State) : Nat :=
  roundsFrom pattern name s.patternPos s.namePos +
    (s.saved.map fun place => roundsFrom pattern name place.patternPos (place.namePos + 1)).sum

theorem roundsFrom_pos {i j : Nat} (hj : j ≤ name.size) : 0 < roundsFrom pattern name i j :=
  Nat.pow_pos (Nat.sub_pos_of_lt (Nat.lt_succ_of_le hj))

/-- Moving on leaves fewer stars and fewer characters to choose from. -/
theorem roundsFrom_le {i i' j j' : Nat} (hi : i ≤ i') (hj : j ≤ j') (hend : j' ≤ name.size) :
    roundsFrom pattern name i' j' ≤ roundsFrom pattern name i j := by
  have hbase : name.size + 1 - j' ≤ name.size + 1 - j := Nat.sub_le_sub_left hj _
  have hpos : 0 < name.size + 1 - j := by omega
  calc (name.size + 1 - j') ^ starsFrom pattern i'
      ≤ (name.size + 1 - j) ^ starsFrom pattern i' := Nat.pow_le_pow_left hbase _
    _ ≤ (name.size + 1 - j) ^ starsFrom pattern i :=
        Nat.pow_le_pow_right hpos (starsFrom_le_of_le hi)

/-- A star pays for both of its ways: what follows it at `j`, and the star itself after `j`. -/
theorem roundsFrom_star_le {i j : Nat} (hi : pattern[i]? = some star) (hend : j < name.size) :
    roundsFrom pattern name (i + 1) j + roundsFrom pattern name i (j + 1) ≤
      roundsFrom pattern name i j := by
  obtain ⟨left, hleft⟩ : ∃ left, name.size + 1 - j = left + 1 := ⟨name.size - j, by omega⟩
  have hnext : name.size + 1 - (j + 1) = left := by omega
  have hpow : left ^ starsFrom pattern (i + 1) ≤ (left + 1) ^ starsFrom pattern (i + 1) :=
    Nat.pow_le_pow_left (Nat.le_succ left) _
  simp only [roundsFrom, starsFrom_of_star hi, hleft, hnext]
  calc (left + 1) ^ starsFrom pattern (i + 1) + left ^ (starsFrom pattern (i + 1) + 1)
      = (left + 1) ^ starsFrom pattern (i + 1) + left ^ starsFrom pattern (i + 1) * left := by
        rw [Nat.pow_succ]
    _ ≤ (left + 1) ^ starsFrom pattern (i + 1) + (left + 1) ^ starsFrom pattern (i + 1) * left :=
        Nat.add_le_add_left (Nat.mul_le_mul_right left hpow) _
    _ = (left + 1) ^ (starsFrom pattern (i + 1) + 1) := by
        rw [Nat.pow_succ, Nat.mul_succ, Nat.add_comm]

/-- **A retry ends a round.** -/
theorem IsRetry.roundsLeft_lt (h : IsRetry s s') (hs : s.namePos ≤ name.size) :
    s'.roundsLeft pattern name < s.roundsLeft pattern name := by
  obtain ⟨place, hsaved, hpattern, hname⟩ := isRetry_iff.mp h
  have hpos : 0 < roundsFrom pattern name s.patternPos s.namePos := roundsFrom_pos hs
  rw [State.roundsLeft, State.roundsLeft, hsaved, hpattern, hname, List.map_cons, List.sum_cons]
  omega

/-- **An advance adds no round**, also if it saves a place. -/
theorem IsAdvance.roundsLeft_le (h : IsAdvance pattern name s s') :
    s'.roundsLeft pattern name ≤ s.roundsLeft pattern name := by
  cases h with
  | pass hc hj hend => exact Nat.add_le_add_right (roundsFrom_le (Nat.le_succ _) hj hend) _
  | @save j hstar hj hend =>
    have hways := roundsFrom_star_le hstar hend
    have hmoved : roundsFrom pattern name s.patternPos j ≤
        roundsFrom pattern name s.patternPos s.namePos :=
      roundsFrom_le (Nat.le_refl _) hj (Nat.le_of_lt hend)
    simp only [State.roundsLeft, List.map_cons, List.sum_cons]
    omega

theorem roundsLeft_start (pattern name : Array Char) :
    State.start.roundsLeft pattern name = (name.size + 1) ^ pattern.toList.count star := by
  simp [State.roundsLeft, State.start, roundsFrom, starsFrom]

/-! ## Runs -/

/-- The states that a run comes through. -/
inductive Reaches (pattern name : Array Char) : State → Prop where
  | start : Reaches pattern name .start
  | goOn {s s' : State} (h : Reaches pattern name s) (hstep : step pattern name s = .goOn s') :
      Reaches pattern name s'

/-- The machine comes from a state to an answer in so many rounds. -/
inductive HaltsIn (pattern name : Array Char) : State → Nat → Bool → Prop where
  | answer {s : State} {covered : Bool} (h : step pattern name s = .answer covered) :
      HaltsIn pattern name s 1 covered
  | ahead {s s' : State} {rounds : Nat} {covered : Bool} (h : step pattern name s = .goOn s')
      (hstep : IsAdvance pattern name s s') (rest : HaltsIn pattern name s' rounds covered) :
      HaltsIn pattern name s rounds covered
  | back {s s' : State} {rounds : Nat} {covered : Bool} (h : step pattern name s = .goOn s')
      (hstep : IsRetry s s') (rest : HaltsIn pattern name s' rounds covered) :
      HaltsIn pattern name s (rounds + 1) covered

theorem Reaches.isStacked (h : Reaches pattern name s) : s.IsStacked pattern name := by
  induction h with
  | start => exact isStacked_start pattern name
  | goOn _ hstep ih => exact ih.step hstep

/-- A run ends after no more rounds than are left in its state. -/
theorem exists_haltsIn (hs : s.InBounds name) :
    ∃ rounds ≤ s.roundsLeft pattern name,
      HaltsIn pattern name s rounds (run pattern name s) := by
  fun_induction run pattern name s with
  | case1 s covered h =>
    have hpos : 0 < roundsFrom pattern name s.patternPos s.namePos := roundsFrom_pos hs.1
    exact ⟨1, Nat.le_add_right_of_le hpos, .answer h⟩
  | case2 s s' h ih =>
    rcases isRetry_or_isAdvance hs.1 h with hretry | hadvance
    · obtain ⟨rounds, hle, hrest⟩ := ih (hs.retry hretry)
      exact ⟨rounds + 1, Nat.lt_of_le_of_lt hle (hretry.roundsLeft_lt hs.1), .back h hretry hrest⟩
    · obtain ⟨rounds, hle, hrest⟩ := ih (hs.advance hadvance)
      exact ⟨rounds, Nat.le_trans hle hadvance.roundsLeft_le, .ahead h hadvance hrest⟩

/-- **The stack stays in order, and every run comes to its end.** At every point of a run the saved
places are stars of the pattern, from the bottom up each further right in it and none further left in
the name, and none at the end of the name; so there are no more of them than stars. Every step is a
retry, which leaves fewer rounds, or an advance, which leaves no more. So a run has its answer after
finitely many rounds, at most as many as there are ways to choose one of the places of the name, its
end among them, for each star. -/
theorem saved_isStacked_and_rounds (pattern name : String) :
    let collapsed := (collapseStars pattern.toList).toArray
    let text := name.toList.toArray
    (∀ s, Reaches collapsed text s →
      s.IsStacked collapsed text ∧
      s.saved.length ≤ (collapseStars pattern.toList).count star ∧
      ∀ s', step collapsed text s = .goOn s' →
        IsRetry s s' ∧ s'.roundsLeft collapsed text < s.roundsLeft collapsed text ∨
        IsAdvance collapsed text s s' ∧
          s'.roundsLeft collapsed text ≤ s.roundsLeft collapsed text) ∧
    ∃ rounds ≤ (name.length + 1) ^ (collapseStars pattern.toList).count star,
      HaltsIn collapsed text .start rounds (matchesName pattern name) := by
  intro collapsed text
  constructor
  · intro s hreach
    have hstacked : s.IsStacked collapsed text := hreach.isStacked
    refine ⟨hstacked, Nat.le_trans (Nat.le_add_right _ _) hstacked.length_saved_le, ?_⟩
    intro s' hstep
    rcases isRetry_or_isAdvance hstacked.inBounds.1 hstep with hretry | hadvance
    · exact .inl ⟨hretry, hretry.roundsLeft_lt hstacked.inBounds.1⟩
    · exact .inr ⟨hadvance, hadvance.roundsLeft_le⟩
  · have hrun : ∃ rounds ≤ State.start.roundsLeft collapsed text,
        HaltsIn collapsed text .start rounds (run collapsed text .start) :=
      exists_haltsIn (isStacked_start collapsed text).inBounds
    rw [roundsLeft_start] at hrun
    exact hrun

/-- Two stars are saved when the name goes on with the wrong character; the second is taken back. -/
theorem saved_isStacked_and_rounds_two_stars :
    let collapsed := (collapseStars "**a*bc".toList).toArray
    let text := "abab".toList.toArray
    let s : State := ⟨4, 2, [⟨2, 1⟩, ⟨0, 0⟩]⟩
    let s' : State := ⟨2, 2, [⟨0, 0⟩]⟩
    Reaches collapsed text s ∧ step collapsed text s = .goOn s' ∧ s.IsStacked collapsed text ∧
      s.saved.length = (collapseStars "**a*bc".toList).count star ∧
      s'.roundsLeft collapsed text < s.roundsLeft collapsed text := by
  intro collapsed text s s'
  have hfirst : Reaches collapsed text ⟨1, 0, [⟨0, 0⟩]⟩ := .goOn .start (by decide +kernel)
  have hletter : Reaches collapsed text ⟨2, 1, [⟨0, 0⟩]⟩ := .goOn hfirst (by decide +kernel)
  have hsecond : Reaches collapsed text ⟨3, 1, [⟨2, 1⟩, ⟨0, 0⟩]⟩ :=
    .goOn hletter (by decide +kernel)
  have hreach : Reaches collapsed text s := .goOn hsecond (by decide +kernel)
  have hstep : step collapsed text s = .goOn s' := by decide +kernel
  obtain ⟨hstacked, -, hkinds⟩ := (saved_isStacked_and_rounds "**a*bc" "abab").1 s hreach
  refine ⟨hreach, hstep, hstacked, by decide, ?_⟩
  rcases hkinds s' hstep with ⟨-, hlt⟩ | ⟨hadvance, -⟩
  · exact hlt
  · exact absurd (rfl : IsRetry s s') hadvance.not_isRetry

end FindingFilter.Wildcard
