import Mathlib.Data.List.Forall2

/-!
# Lists — what holds of every element

A property of all elements fails at a first one (`forall_or_exists_first`), and a relation that every
element has to something relates the whole list to a list (`exists_forall₂_iff`).
-/

namespace FindingFilter

variable {α β : Type}

/-- Either all elements have the property, or there is a first that has not. -/
theorem forall_or_exists_first (p : α → Prop) (as : List α) :
    (∀ a ∈ as, p a) ∨
      ∃ front a rest, as = front ++ a :: rest ∧ (∀ b ∈ front, p b) ∧ ¬ p a := by
  induction as with
  | nil => exact Or.inl fun a hmem => absurd hmem List.not_mem_nil
  | cons a as ih =>
    by_cases ha : p a
    · rcases ih with hall | ⟨front, b, rest, rfl, hfront, hb⟩
      · exact Or.inl (List.forall_mem_cons.mpr ⟨ha, hall⟩)
      · exact Or.inr ⟨a :: front, b, rest, rfl, List.forall_mem_cons.mpr ⟨ha, hfront⟩, hb⟩
    · exact Or.inr ⟨[], a, as, rfl, fun b hmem => absurd hmem List.not_mem_nil, ha⟩

theorem exists_forall₂_iff {R : α → β → Prop} {as : List α} :
    (∃ bs, List.Forall₂ R as bs) ↔ ∀ a ∈ as, ∃ b, R a b := by
  induction as with
  | nil => simp
  | cons a as ih =>
    simp only [List.forall_mem_cons, ← ih, List.forall₂_cons_left_iff]
    constructor
    · rintro ⟨_, b, bs, hhead, htail, rfl⟩
      exact ⟨⟨b, hhead⟩, bs, htail⟩
    · rintro ⟨⟨b, hhead⟩, bs, htail⟩
      exact ⟨_, b, bs, hhead, htail, rfl⟩

theorem mem_flatten_of_forall₂ {R : α → List β → Prop} {as : List α}
    (hunique : ∀ {a bs cs}, R a bs → R a cs → bs = cs) {lists : List (List β)}
    (h : List.Forall₂ R as lists) {b : β} :
    b ∈ lists.flatten ↔ ∃ a ∈ as, ∃ bs, R a bs ∧ b ∈ bs := by
  induction h with
  | nil => simp
  | @cons a bs as lists hhead htail ih =>
    rw [List.flatten_cons, List.mem_append, ih, List.exists_mem_cons_iff]
    apply or_congr_left
    constructor
    · exact fun hmem => ⟨bs, hhead, hmem⟩
    · rintro ⟨cs, hcs, hmem⟩
      rwa [hunique hhead hcs]

end FindingFilter
