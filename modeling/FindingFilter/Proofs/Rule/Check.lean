import FindingFilter.Rule.Basic

/-!
# Rules — which ids pass the check

A rule may enter a store if its id is `*` or an identifier of ASCII: a letter or an underscore
first, then letters, underscores and digits. `check_eq_ok_iff` says that `check` accepts exactly
these.
-/

namespace FindingFilter.Rule

/-- A letter of ASCII or an underscore. -/
def IsLetter (c : Char) : Prop :=
  ('A' ≤ c ∧ c ≤ 'Z') ∨ ('a' ≤ c ∧ c ≤ 'z') ∨ c = '_'

/-- A digit of ASCII. -/
def IsDigit (c : Char) : Prop :=
  '0' ≤ c ∧ c ≤ '9'

/-- An identifier: letters and digits, the first of them a letter. -/
def IsName (id : String) : Prop :=
  ∃ first rest, id.toList = first :: rest ∧ IsLetter first ∧ ∀ c ∈ rest, IsLetter c ∨ IsDigit c

theorem isDigit_iff {c : Char} : c.isDigit = true ↔ IsDigit c := by
  simp [Char.isDigit, IsDigit, Char.le_def]

theorem isAlphanum_iff {c : Char} :
    (c.isAlphanum || c == '_') = true ↔ IsLetter c ∨ IsDigit c := by
  have hclasses : c.isAlpha = true ↔ ('A' ≤ c ∧ c ≤ 'Z') ∨ ('a' ≤ c ∧ c ≤ 'z') := by
    show (decide ('A'.val ≤ c.val ∧ c.val ≤ 'Z'.val) ||
      (decide ('a'.val ≤ c.val) && decide (c.val ≤ 'z'.val))) = true ↔ _
    simp only [Bool.or_eq_true, Bool.and_eq_true, decide_eq_true_iff, Char.le_def]
  have hletter : c.isAlpha = true ∨ c = '_' ↔ IsLetter c := by
    rw [hclasses, IsLetter, or_assoc]
  rw [Char.isAlphanum, Bool.or_eq_true, Bool.or_eq_true, beq_iff_eq, or_right_comm, hletter,
    isDigit_iff]

/-- No digit is a letter. -/
theorem not_isLetter_of_isDigit {c : Char} (h : IsDigit c) : ¬ IsLetter c := by
  rintro (⟨hlower, -⟩ | ⟨hlower, -⟩ | rfl)
  · exact absurd (Char.le_trans hlower h.2) (by decide)
  · exact absurd (Char.le_trans hlower h.2) (by decide)
  · exact absurd h.2 (by decide)

/-- The test looks at the first character twice, once among all. -/
theorem isIdentifier_iff {id : String} : isIdentifier id.toList = true ↔ IsName id := by
  unfold isIdentifier IsName
  cases id.toList with
  | nil => simp
  | cons first rest =>
    have hall : (∀ c ∈ first :: rest, (c.isAlphanum || c == '_') = true) ↔
        (IsLetter first ∨ IsDigit first) ∧ ∀ c ∈ rest, IsLetter c ∨ IsDigit c := by
      simp only [List.forall_mem_cons, isAlphanum_iff]
    rw [Bool.and_eq_true, Bool.not_eq_true', ← Bool.not_eq_true, isDigit_iff, List.all_eq_true,
      hall]
    constructor
    · rintro ⟨hdigit, hfirst, hrest⟩
      exact ⟨first, rest, rfl, hfirst.resolve_right hdigit, hrest⟩
    · rintro ⟨_, _, ⟨rfl, rfl⟩, hletter, hrest⟩
      exact ⟨fun hdigit => not_isLetter_of_isDigit hdigit hletter, Or.inl hletter, hrest⟩

/-- **An id passes the check if it stands for every id or is an identifier.** The check for an
empty id comes first and adds nothing, as the empty text is neither. -/
theorem check_eq_ok_iff {rule : Rule} : rule.check = .ok () ↔ rule.id = anyId ∨ IsName rule.id := by
  unfold check checkId
  by_cases hempty : rule.id.isEmpty
  · have hid : rule.id = "" := by simpa using hempty
    simp [hid, anyId, IsName]
  · by_cases hid : rule.id = anyId
    · have hany : anyId ≠ "" := by decide
      simp [hid, hany]
    · simp [hempty, hid, isIdentifier_iff]

/-- What an id that passes the check is made of. -/
theorem class_of_mem_id {rule : Rule} (hcheck : rule.check = .ok ()) {c : Char}
    (hmem : c ∈ rule.id.toList) : c = '*' ∨ IsLetter c ∨ IsDigit c := by
  rcases check_eq_ok_iff.mp hcheck with hany | ⟨first, rest, hid, hfirst, hrest⟩
  · rw [hany] at hmem
    exact .inl (List.mem_singleton.mp hmem)
  · rw [hid] at hmem
    rcases List.mem_cons.mp hmem with rfl | htail
    · exact .inr (.inl hfirst)
    · exact .inr (hrest c htail)

end FindingFilter.Rule
