/-!
# Text — the order of names is the order of their bytes

Names are sorted by their characters. Sorting them by the bytes of their encoding in UTF-8 gives the
same order (`bytes_lt_bytes_iff`): of two different characters the smaller one has the smaller byte
where their encodings part (`precedes_utf8EncodeChar`), so two texts part in their bytes where they
part in their characters, and in the same direction.
-/

namespace FindingFilter.Text

/-- The bytes of a text in UTF-8. -/
def bytes (text : String) : List UInt8 :=
  text.toUTF8.data.toList

theorem bytes_eq_flatMap (text : String) :
    bytes text = text.toList.flatMap String.utf8EncodeChar := by
  show text.toByteArray.data.toList = _
  rw [← String.utf8Encode_toList, List.utf8Encode]
  simp

/-- Two runs of bytes part at some place, where the first has the smaller byte. What follows that
place does not count. -/
def Precedes : List UInt8 → List UInt8 → Prop
  | x :: xs, y :: ys => x < y ∨ x = y ∧ Precedes xs ys
  | _, _ => False

theorem lt_of_precedes {xs ys : List UInt8} (h : Precedes xs ys) (more more' : List UInt8) :
    xs ++ more < ys ++ more' := by
  induction xs generalizing ys with
  | nil => exact h.elim
  | cons x xs ih =>
    cases ys with
    | nil => exact h.elim
    | cons y ys =>
      rw [List.cons_append, List.cons_append, List.cons_lt_cons_iff]
      rcases h with hlt | ⟨heq, hrest⟩
      · exact Or.inl hlt
      · exact Or.inr ⟨heq, ih hrest⟩

theorem not_precedes_nil (ys : List UInt8) : ¬ Precedes [] ys := id

theorem precedes_ofNat_iff {m n : Nat} (hm : m < 256) (hn : n < 256) {xs ys : List UInt8} :
    Precedes (UInt8.ofNat m :: xs) (UInt8.ofNat n :: ys) ↔ m < n ∨ m = n ∧ Precedes xs ys := by
  have hlt : UInt8.ofNat m < UInt8.ofNat n ↔ m < n := by
    rw [UInt8.lt_iff_toNat_lt, UInt8.toNat_ofNat_of_lt' hm, UInt8.toNat_ofNat_of_lt' hn]
  have heq : UInt8.ofNat m = UInt8.ofNat n ↔ m = n := by
    rw [← UInt8.toNat_inj, UInt8.toNat_ofNat_of_lt' hm, UInt8.toNat_ofNat_of_lt' hn]
  rw [Precedes, hlt, heq]

/-- Of two numbers of four digits, the first digit in which they differ decides. -/
theorem four_digits {v w : Nat} (h : v < w) (hw : w < 8 * 262144) :
    v / 262144 % 8 < w / 262144 % 8 ∨ v / 262144 % 8 = w / 262144 % 8 ∧
      (v / 4096 % 64 < w / 4096 % 64 ∨ v / 4096 % 64 = w / 4096 % 64 ∧
        (v / 64 % 64 < w / 64 % 64 ∨ v / 64 % 64 = w / 64 % 64 ∧ v % 64 < w % 64)) := by
  have hv : v / 262144 % 8 = v / 262144 := Nat.mod_eq_of_lt (by omega)
  have hw : w / 262144 % 8 = w / 262144 := Nat.mod_eq_of_lt (by omega)
  omega

/-- **The smaller character has the smaller byte where the encodings part.** The cases are the
lengths of the two encodings. If they differ, so do the first bytes; if not, the bytes are the
digits of the code points, to base 64. -/
theorem precedes_utf8EncodeChar {c d : Char} (h : c < d) :
    Precedes (String.utf8EncodeChar c) (String.utf8EncodeChar d) := by
  have hlt : c.val.toNat < d.val.toNat := h
  have hmax : d.val.toNat < 0x110000 := by
    rcases d.valid with hlow | ⟨-, hhigh⟩
    · have : d.val.toNat < 0xD800 := hlow
      omega
    · exact hhigh
  have hdigits := four_digits hlt (by omega)
  unfold String.utf8EncodeChar
  simp only []
  repeat' split
  all_goals
    simp (disch := omega) only [precedes_ofNat_iff, not_precedes_nil, and_false, or_false]
    omega

/-! ## Texts -/

theorem flatMap_utf8EncodeChar_lt {cs ds : List Char} (h : cs < ds) :
    cs.flatMap String.utf8EncodeChar < ds.flatMap String.utf8EncodeChar := by
  induction cs generalizing ds with
  | nil =>
    cases ds with
    | nil => exact absurd h (List.lt_irrefl [])
    | cons d ds =>
      rw [List.flatMap_nil, List.flatMap_cons]
      cases hbytes : String.utf8EncodeChar d with
      | nil => exact absurd hbytes String.utf8EncodeChar_ne_nil
      | cons x xs => exact List.nil_lt_cons ..
  | cons c cs ih =>
    cases ds with
    | nil => exact absurd h (List.not_lt_nil _)
    | cons d ds =>
      rw [List.flatMap_cons, List.flatMap_cons]
      -- The texts part here, or they have one more character in common.
      rcases List.cons_lt_cons_iff.mp h with hlt | ⟨rfl, hrest⟩
      · exact lt_of_precedes (precedes_utf8EncodeChar hlt) _ _
      · exact List.append_left_lt (ih hrest)

theorem bytes_lt_of_lt {a b : String} (h : a < b) : bytes a < bytes b := by
  rw [bytes_eq_flatMap, bytes_eq_flatMap]
  exact flatMap_utf8EncodeChar_lt h

/-- **Names are in the order of their bytes.** As the order of characters is total, it is enough
that it is kept. -/
theorem bytes_lt_bytes_iff {a b : String} : bytes a < bytes b ↔ a < b := by
  constructor
  · intro h
    rcases Std.lt_trichotomy a b with hlt | rfl | hgt
    · exact hlt
    · exact absurd h (List.lt_irrefl _)
    · exact absurd (bytes_lt_of_lt hgt) (List.lt_asymm h)
  · exact bytes_lt_of_lt

end FindingFilter.Text
