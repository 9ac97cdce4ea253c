import FindingFilter.Proofs.Text.LineNumber
import Mathlib.Data.List.Forall2

/-!
# Text — path separators of either kind

`IsRespelled` says that a text is another one with `/` for some of its backslashes. What a reader
makes of the two is the same if it looks at classes of characters only to which both separators
belong or neither:

* the texts have the same canonical form (`IsRespelled.map_slash`);
* they are cut at the same places, into pieces that are related in the same way again
  (`IsRespelled.exists_append_cons`, `forall₂_splitAt`), as no cut is made at a separator.

The relation has a direction: the other text may have fewer backslashes, but not more.
-/

namespace FindingFilter.Text

/-- How a character may be spelled: a backslash as itself or as `/`, all others as themselves. -/
def IsSpelling (c d : Char) : Prop :=
  d = c ∨ c = '\\' ∧ d = '/'

/-- The other text is the text with `/` in place of some of its backslashes, be it none or all. -/
def IsRespelled (text other : List Char) : Prop :=
  List.Forall₂ IsSpelling text other

instance (c d : Char) : Decidable (IsSpelling c d) :=
  inferInstanceAs (Decidable (_ ∨ _))

instance decidableIsRespelled : (text other : List Char) → Decidable (IsRespelled text other)
  | [], [] => isTrue .nil
  | [], _ :: _ => isFalse fun h => nomatch h
  | _ :: _, [] => isFalse fun h => nomatch h
  | c :: text, d :: other =>
    have := decidableIsRespelled text other
    decidable_of_iff (IsSpelling c d ∧ IsRespelled text other) List.forall₂_cons.symm

variable {c d : Char} {text other : List Char}

theorem IsSpelling.slash_eq (h : IsSpelling c d) : slash d = slash c := by
  rcases h with rfl | ⟨rfl, rfl⟩
  · rfl
  · rfl

/-- A character that is no backslash has one spelling. -/
theorem IsSpelling.eq_of_ne (h : IsSpelling c d) (hc : c ≠ '\\') : d = c :=
  h.resolve_right fun hback => hc hback.1

theorem IsSpelling.class_eq (h : IsSpelling c d) {p : Char → Bool} (hp : p '\\' = p '/') :
    p d = p c := by
  rw [← class_slash hp d, h.slash_eq, class_slash hp c]

/-! ## The text as a whole -/

/-- **The two texts have one canonical form.** -/
theorem IsRespelled.map_slash (h : IsRespelled text other) : other.map slash = text.map slash := by
  induction h with
  | nil => rfl
  | cons hc _ ih => rw [List.map_cons, List.map_cons, hc.slash_eq, ih]

theorem IsRespelled.eq_of_not_mem (h : IsRespelled text other) (hback : '\\' ∉ text) :
    other = text := by
  induction h with
  | nil => rfl
  | cons hc _ ih =>
    obtain ⟨hne, hrest⟩ := not_or.mp (mt List.mem_cons.mpr hback)
    rw [hc.eq_of_ne (Ne.symm hne), ih hrest]

/-- A text keeps the beginning that it has before its first backslash. -/
theorem IsRespelled.prefix_of_not_mem (h : IsRespelled text other) {front : List Char}
    (hback : '\\' ∉ front) (hfront : front <+: text) : front <+: other := by
  induction front generalizing text other with
  | nil => exact List.nil_prefix
  | cons a front ih =>
    obtain ⟨hne, hrest⟩ := not_or.mp (mt List.mem_cons.mpr hback)
    cases h with
    | nil => exact absurd (List.prefix_nil.mp hfront) (List.cons_ne_nil a front)
    | cons hc htail =>
      obtain ⟨rfl, hprefix⟩ := List.cons_prefix_cons.mp hfront
      rw [hc.eq_of_ne (Ne.symm hne)]
      exact List.cons_prefix_cons.mpr ⟨rfl, ih htail hrest hprefix⟩

/-! ## Cuts -/

/-- **A text is respelled on both sides of a character** that is no backslash. -/
theorem IsRespelled.exists_append_cons {before after : List Char}
    (h : IsRespelled (before ++ c :: after) other) (hc : c ≠ '\\') :
    ∃ before' after', IsRespelled before before' ∧ IsRespelled after after' ∧
      other = before' ++ c :: after' := by
  induction before generalizing other with
  | nil =>
    obtain ⟨d, after', hd, hafter, rfl⟩ := List.forall₂_cons_left_iff.mp h
    exact ⟨[], after', .nil, hafter, by rw [hd.eq_of_ne hc, List.nil_append]⟩
  | cons a before ih =>
    obtain ⟨d, rest, hd, hrest, rfl⟩ := List.forall₂_cons_left_iff.mp h
    obtain ⟨before', after', hbefore, hafter, rfl⟩ := ih hrest
    exact ⟨d :: before', after', .cons hd hbefore, hafter, rfl⟩

/-- **The pieces of a respelled text are the pieces of the text, respelled**, if no cut is made at a
separator. -/
theorem forall₂_splitAt {isCut : Char → Bool} (hcut : isCut '\\' = isCut '/')
    (h : IsRespelled text other) :
    List.Forall₂ IsRespelled (splitAt isCut text) (splitAt isCut other) := by
  induction h with
  | nil => exact .cons .nil .nil
  | @cons c d text other hc _ ih =>
    rw [splitAt, splitAt, hc.class_eq hcut]
    by_cases hcutc : isCut c
    · rw [if_pos hcutc, if_pos hcutc]
      exact .cons .nil ih
    · rw [if_neg hcutc, if_neg hcutc]
      cases hpieces : splitAt isCut text with
      | nil => exact absurd hpieces (splitAt_ne_nil isCut text)
      | cons piece more =>
        rw [hpieces] at ih
        obtain ⟨piece', more', hpiece, hmore, hother⟩ := List.forall₂_cons_left_iff.mp ih
        rw [hother]
        exact .cons (.cons hc hpiece) hmore

/-- The last cut is made at the same place, whichever separators there are. -/
theorem cutLast?_map_slash {sep : Char} (hslash : sep ≠ '/') (hback : sep ≠ '\\')
    (text : List Char) :
    cutLast? sep (text.map slash) =
      (cutLast? sep text).map fun parts => (parts.1.map slash, parts.2.map slash) := by
  cases hcut : cutLast? sep text with
  | none =>
    have hmem : sep ∉ text := cutLast?_eq_none_iff.mp hcut
    exact cutLast?_eq_none_iff.mpr (mt (mem_map_slash_iff hslash hback).mp hmem)
  | some parts =>
    obtain ⟨before, after⟩ := parts
    have hmem : sep ∉ after := not_mem_of_cutLast? hcut
    have hkept : slash sep = sep := (slash_eq_iff hslash hback).mpr rfl
    rw [eq_of_cutLast? hcut, List.map_append, List.map_cons, hkept,
      cutLast?_append (mt (mem_map_slash_iff hslash hback).mp hmem)]
    rfl

end FindingFilter.Text
