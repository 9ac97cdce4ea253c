/-!
# Results — what steps that may fail give in the end

A run of steps gives a result exactly if each of them does. With `bind_eq_ok_iff` such a run is taken
apart into its steps, and put together from them. A list of results is taken together in the same way:
it gives all of them (`mapM_id_eq_ok_iff`), or the first failure in it (`mapM_id_eq_error_iff`).
-/

namespace FindingFilter

theorem bind_eq_ok_iff {ε α β : Type} {x : Except ε α} {f : α → Except ε β} {b : β} :
    x >>= f = .ok b ↔ ∃ a, x = .ok a ∧ f a = .ok b := by
  cases x with
  | error cause => simp [bind, Except.bind]
  | ok a => simp [bind, Except.bind]

theorem mapError_eq_ok_iff {ε ε' α : Type} {x : Except ε α} {f : ε → ε'} {a : α} :
    x.mapError f = .ok a ↔ x = .ok a := by
  cases x with
  | error cause => exact ⟨nofun, nofun⟩
  | ok b =>
    show Except.ok b = Except.ok a ↔ _
    rw [Except.ok.injEq, Except.ok.injEq]

theorem eq_ok_of_toOption {ε α : Type} {x : Except ε α} {a : α} (h : x.toOption = some a) :
    x = .ok a := by
  cases x with
  | error cause => cases h
  | ok b => exact congrArg Except.ok (Option.some.inj h)

theorem mapM_id_cons_ok {ε α : Type} (a : α) (items : List (Except ε α)) :
    (Except.ok a :: items).mapM id = (items.mapM id).map (a :: ·) := by
  rw [List.mapM_cons]
  cases items.mapM id <;> rfl

theorem mapM_id_cons_error {ε α : Type} (cause : ε) (items : List (Except ε α)) :
    (Except.error cause :: items).mapM id = .error cause := by
  rw [List.mapM_cons]
  rfl

theorem mapM_id_eq_ok_iff {ε α : Type} {items : List (Except ε α)} {as : List α} :
    items.mapM id = .ok as ↔ items = as.map .ok := by
  induction items generalizing as with
  | nil => cases as <;> simp [pure, Except.pure]
  | cons item items ih =>
    cases item with
    | error cause =>
      rw [mapM_id_cons_error]
      cases as <;> simp
    | ok a =>
      rw [mapM_id_cons_ok]
      cases as with
      | nil => cases items.mapM id <;> simp [Except.map]
      | cons b as =>
        rw [List.map_cons, List.cons.injEq, ← ih]
        cases items.mapM id <;> simp [Except.map]

theorem mapM_id_eq_error_iff {ε α : Type} {items : List (Except ε α)} {cause : ε} :
    items.mapM id = .error cause ↔
      ∃ (front : List α) (rest : List (Except ε α)),
        items = front.map .ok ++ .error cause :: rest := by
  induction items with
  | nil => simp [pure, Except.pure]
  | cons item items ih =>
    cases item with
    | error first =>
      rw [mapM_id_cons_error]
      constructor
      · intro h
        exact ⟨[], items, by rw [Except.error.inj h]; rfl⟩
      · rintro ⟨_ | ⟨a, front⟩, rest, h⟩
        · exact congrArg Except.error (Except.error.inj (List.cons.inj h).1)
        · cases (List.cons.inj h).1
    | ok a =>
      have hmap : (items.mapM id).map (a :: ·) = .error cause ↔ items.mapM id = .error cause := by
        cases items.mapM id <;> simp [Except.map]
      rw [mapM_id_cons_ok, hmap, ih]
      constructor
      · rintro ⟨front, rest, rfl⟩
        exact ⟨a :: front, rest, rfl⟩
      · rintro ⟨_ | ⟨b, front⟩, rest, h⟩
        · cases (List.cons.inj h).1
        · exact ⟨front, rest, (List.cons.inj h).2⟩

end FindingFilter
