import FindingFilter.Json.Record
import FindingFilter.Proofs.Json.Printing

/-!
# JSON — records that are read back

A record is written as an object whose members stand in the order of the field names, perhaps without
the last fields. The reader finds the value of every field that was written, and none for the others
(`fields_ofMembers_zip`). Texts, numbers and lists of things that are read back are read back
themselves.
-/

namespace FindingFilter.Json

/-! ## Fields -/

theorem idxOf?_append_cons {before : List String} {name : String} (h : name ∉ before)
    (after : List String) : (before ++ name :: after).idxOf? name = some before.length := by
  induction before with
  | nil => simp [List.idxOf?_cons]
  | cons other before ih =>
    obtain ⟨hne, hrest⟩ := not_or.mp (mt List.mem_cons.mpr h)
    rw [List.cons_append, List.idxOf?_cons, if_neg (by simpa using Ne.symm hne), ih hrest]
    rfl

/-- The members from one field on: the fields in front of it are not found, as no name comes twice,
and every field from there on is found if it is written. -/
theorem memberFields_zip (before names : List String) {values : List Json}
    (hnodup : (before ++ names).Nodup) (hlength : values.length ≤ names.length) :
    memberFields (before ++ names)
        ((names.zip values).map fun entry => (some entry.1.toList, entry.2)) =
      .ok (before.map (fun _ => none) ++ (values.map some ++
        (names.drop values.length).map fun _ => none)) := by
  induction values generalizing before names with
  | nil => simp [memberFields]
  | cons value values ih =>
    cases names with
    | nil => simp at hlength
    | cons name names =>
      have hmem : name ∉ before := by
        have hdisjoint := (List.nodup_append.mp hnodup).2.2
        exact fun hname => hdisjoint name hname name List.mem_cons_self rfl
      -- The members behind this one fill the fields behind it, and leave this one and the front open.
      have hrest : memberFields (before ++ name :: names)
          ((names.zip values).map fun entry => (some entry.1.toList, entry.2)) =
          .ok (before.map (fun _ => none) ++ none :: (values.map some ++
            (names.drop values.length).map fun _ => none)) := by
        have hnext := ih (before ++ [name]) names (by simpa using hnodup) (by simpa using hlength)
        simpa using hnext
      rw [List.zip_cons_cons, List.map_cons, memberFields, hrest, String.ofList_toList,
        idxOf?_append_cons hmem]
      simp

/-- **Every field that is written is found, and no other.** -/
theorem fields_ofMembers_zip {names : List String} {values : List Json} (hnodup : names.Nodup)
    (hlength : values.length ≤ names.length) :
    fields names (.ofMembers (names.zip values)) =
      .ok (values.map some ++ (names.drop values.length).map fun _ => none) :=
  memberFields_zip [] names hnodup hlength

/-! ## Values -/

@[simp]
theorem toText_ofString (text : String) : toText (.ofString text) = .ok text := by
  rw [ofString, toText, String.ofList_toList]

theorem toNatBelow_ofNat {bound n : Nat} (h : n < bound) : toNatBelow bound (.ofNat n) = .ok n := by
  have hdigits : (toString n).toList.all Char.isDigit = true :=
    List.all_eq_true.mpr fun c hc => Text.isDigit_of_mem_toString hc
  have hvalue : Text.digitsValue (toString n).toList = n := by
    rw [Nat.toString_eq_ofList_toDigits, String.toList_ofList, Text.digitsValue_toDigits]
  rw [ofNat, toNatBelow, hdigits, hvalue, Bool.true_and, if_pos (decide_eq_true h)]

@[simp]
theorem toUInt32_ofNat (n : UInt32) : toUInt32 (.ofNat n.toNat) = .ok n := by
  rw [toUInt32, toNatBelow_ofNat n.toNat_lt_size, Except.map, UInt32.ofNat_toNat]

@[simp]
theorem toUInt64_ofNat (n : UInt64) : toUInt64 (.ofNat n.toNat) = .ok n := by
  rw [toUInt64, toNatBelow_ofNat n.toNat_lt_size, Except.map, UInt64.ofNat_toNat]

/-- A list is read back if its elements are. -/
theorem toListOf_array_map {α : Type} {read : Json → Except Error α} {write : α → Json}
    (h : ∀ a, read (write a) = .ok a) (as : List α) :
    toListOf read (.array (as.map write)) = .ok as := by
  rw [toListOf]
  induction as with
  | nil => rfl
  | cons a as ih => rw [List.map_cons, List.mapM_cons, h, ih]; rfl

theorem isWritable_array_map {α : Type} {write : α → Json} (h : ∀ a, IsWritable (write a))
    (as : List α) : IsWritable (.array (as.map write)) :=
  .array (List.forall_mem_map.mpr fun a _ => h a)

end FindingFilter.Json
