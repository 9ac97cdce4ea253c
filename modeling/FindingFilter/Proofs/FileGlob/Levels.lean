import FindingFilter.FileGlob.Expansion
import FindingFilter.Proofs.Text.Pieces
import Mathlib.Logic.Relation

/-!
# File patterns — all levels below a place

What is below a place is looked for level by level, and the number of levels is fixed beforehand
(`FileGlob.allBelow`). That is enough: the path of a child is longer than that of its directory
(`FileGlob.size_lt_childPath`), and a path that is too long cannot be listed
(`FileTree.size_le_of_listing`). Only the directory where relative paths start is not written in front
of its children, and no child is that directory (`FileGlob.isHere_childPath`).

* **`FileGlob.mem_inside_iff`** — what is come upon in a directory: what its children lead to, or its
  failure;
* **`FileGlob.mem_allBelow_iff`** — the search comes upon this in every directory below the place, on
  whatever level, and upon nothing else.
-/

namespace FindingFilter

/-! ## What a listing gives -/

namespace FileTree

variable {tree : FileTree} {path : String} {listed : List Listed}

/-- A path that is too long leads nowhere. -/
theorem size_le_of_find {location : Location} {entry : FileEntry}
    (h : tree.find path = .ok (location, entry)) : path.utf8ByteSize ≤ maxPathBytes := by
  rw [find] at h
  split at h
  · cases h
  · split at h
    · cases h
    · split at h
      · cases h
      next hlong => exact Nat.le_of_not_lt hlong

theorem find_of_access {location : Location} {entry : FileEntry}
    (h : tree.access path = .ok (location, entry)) : tree.find path = .ok (location, entry) := by
  rw [access] at h
  cases hfind : tree.find path with
  | error cause =>
    rw [hfind] at h
    cases h
  | ok found =>
    rw [hfind] at h
    simp only at h
    split at h
    · cases h
    · exact h

theorem size_le_of_listing (h : tree.listing path = .ok listed) :
    path.utf8ByteSize ≤ maxPathBytes := by
  rw [listing] at h
  split at h
  next haccess => exact size_le_of_find (find_of_access haccess)
  · cases h
  · cases h

/-- A listing gives proper names only. -/
theorem isName_of_mem_listing (h : tree.listing path = .ok listed) {entry : Listed}
    (hmem : entry ∈ listed) : isName entry.name = true := by
  rw [listing] at h
  split at h
  · cases h
    obtain ⟨⟨place, stored⟩, -, hentry⟩ := List.mem_filterMap.mp hmem
    simp only at hentry
    split at hentry
    · split at hentry
      next hproper =>
        cases hentry
        exact (Bool.and_eq_true_iff.mp hproper).2
      · cases hentry
    · cases hentry
  · cases h
  · cases h

end FileTree

namespace FileGlob

open FileTree (isName maxPathBytes)

variable {tree : FileTree}

/-! ## Paths of children -/

section Paths

variable {directory name : String}

theorem ne_slash_of_isName (h : isName name = true) : ∀ c ∈ name.toList, (c == '/') = false := by
  simp only [isName, Bool.and_eq_true, Bool.not_eq_true', List.contains_eq_mem,
    decide_eq_false_iff_not] at h
  intro c hc
  rw [beq_eq_false_iff_ne]
  rintro rfl
  exact h.2 hc

theorem isAbsolute_of_isName (h : isName name = true) : Path.isAbsolute name = false := by
  rw [Path.isAbsolute, beq_eq_false_iff_ne]
  intro hhead
  have hfirst := ne_slash_of_isName h '/' (List.mem_of_mem_head? hhead)
  exact absurd hfirst (by decide)

/-- A path whose last piece is a name has it as its last component. -/
theorem getLast?_components (h : isName name = true) {path : String} (front : List (List Char))
    (hpieces : Text.splitAt (· == '/') path.toList = front ++ [name.toList]) :
    (Path.components path).getLast? = some (.name name) := by
  simp only [isName, Bool.and_eq_true, bne_iff_ne, ne_eq, ← String.toList_inj] at h
  obtain ⟨⟨⟨hempty, hdot⟩, hdots⟩, -⟩ := h
  have hempty : name.toList ≠ [] := hempty
  have hdot : name.toList ≠ ['.'] := hdot
  have hdots : name.toList ≠ ['.', '.'] := hdots
  rw [Path.components, hpieces]
  -- The first piece of a path is read in its own way.
  cases front with
  | nil => simp [hempty, hdot, hdots]
  | cons first more => simp [hempty, hdot, hdots]

/-- The path of a child is its name, or ends in it behind a separator. -/
theorem toList_childPath (directory : String) (h : isName name = true) :
    (childPath directory name).toList = name.toList ∨
      ∃ front, (childPath directory name).toList = front ++ '/' :: name.toList := by
  rw [childPath]
  split
  · exact Or.inl rfl
  · rw [Path.join, isAbsolute_of_isName h, Bool.false_or]
    split
    · exact Or.inl rfl
    · split
      next hlast =>
        obtain ⟨front, hfront⟩ := List.getLast?_eq_some_iff.mp (beq_iff_eq.mp hlast)
        exact Or.inr ⟨front, by simp [hfront]⟩
      · exact Or.inr ⟨directory.toList, by simp⟩

/-- No child is the directory where relative paths start. -/
theorem isHere_childPath (h : isName name = true) :
    isHere (childPath directory name) = false := by
  have hname : Text.splitAt (· == '/') name.toList = [name.toList] :=
    Text.splitAt_of_uncut (ne_slash_of_isName h)
  have hlast : (Path.components (childPath directory name)).getLast? = some (.name name) := by
    rcases toList_childPath directory h with heq | ⟨front, heq⟩
    · exact getLast?_components h [] (by rw [heq, hname]; rfl)
    · have hpieces := @Text.splitAt_append_cons (· == '/') '/' rfl front name.toList
      exact getLast?_components h _ (by rw [heq, hpieces, hname])
  rw [isHere, beq_eq_false_iff_ne]
  intro hhere
  rw [hhere] at hlast
  cases hlast

theorem size_pos_of_isName (h : isName name = true) : 0 < name.utf8ByteSize := by
  refine Nat.pos_of_ne_zero fun hzero => ?_
  rw [String.utf8ByteSize_eq_zero_iff.mp hzero] at h
  cases h

/-- From level to level paths get longer. -/
theorem size_lt_childPath (h : isName name = true) (hhere : isHere directory = false) :
    directory.utf8ByteSize < (childPath directory name).utf8ByteSize := by
  have hpos := size_pos_of_isName h
  rw [childPath, hhere, if_neg Bool.false_ne_true, Path.join, isAbsolute_of_isName h,
    Bool.false_or]
  split
  next hempty => rwa [String.isEmpty_iff.mp hempty]
  next =>
    split
    · rw [String.utf8ByteSize_append]
      omega
    · rw [String.utf8ByteSize_append, String.utf8ByteSize_append]
      omega

end Paths

/-! ## What is in a directory -/

/-- The child is listed in the directory at a place. -/
structure IsIn (tree : FileTree) (place : Place) (child : Child) : Prop where
  isDirectory : place.isDirectory = true
  isListed : ∃ children, childrenOf tree place.path = .ok children ∧ child ∈ children

/-- The lower place is the other or below it, in directories that are all listed. -/
def IsUnder (tree : FileTree) : Place → Place → Prop :=
  Relation.ReflTransGen fun place lower => ∃ child, IsIn tree place child ∧ lower = child.toPlace

/-- A directory is at the place, and it cannot be listed for this reason. -/
structure IsSealed (tree : FileTree) (place : Place) (cause : FileError) : Prop where
  isDirectory : place.isDirectory = true
  refused : tree.listing place.path = .error cause

theorem childrenOf_eq_error_iff {path : String} {cause : FileError} :
    childrenOf tree path = .error cause ↔ tree.listing path = .error cause := by
  rw [childrenOf]
  cases tree.listing path with
  | ok listed => simp [Except.map]
  | error other => simp [Except.map]

/-- What is listed in order already is left in this order. -/
theorem childrenOf_of_pairwise {path : String} {listed : List FileTree.Listed}
    (hlisting : tree.listing path = .ok listed)
    (horder : listed.Pairwise fun a b => !(b.name < a.name)) :
    childrenOf tree path = .ok (listed.map fun entry =>
      ⟨⟨childPath path entry.name, entry.isDirectory⟩, entry.name⟩) := by
  rw [childrenOf, hlisting, Except.map, List.mergeSort_of_pairwise horder]

/-- A child has a proper name and the path of that name. -/
theorem IsIn.exists_name {place : Place} {child : Child} (h : IsIn tree place child) :
    place.path.utf8ByteSize ≤ maxPathBytes ∧
      ∃ name, isName name = true ∧ child.path = childPath place.path name := by
  obtain ⟨-, children, hchildren, hmem⟩ := h
  rw [childrenOf] at hchildren
  cases hlisting : tree.listing place.path with
  | error cause =>
    rw [hlisting] at hchildren
    cases hchildren
  | ok listed =>
    rw [hlisting] at hchildren
    obtain rfl := Except.ok.inj hchildren
    obtain ⟨entry, hentry, rfl⟩ := List.mem_map.mp hmem
    exact ⟨FileTree.size_le_of_listing hlisting, entry.name,
      FileTree.isName_of_mem_listing hlisting (List.mem_mergeSort.mp hentry), rfl⟩

section Inside

variable {place : Place} {item : Item}

theorem mem_inside_iff {visit : List Child → List Item} :
    item ∈ inside tree place visit ↔
      (place.isDirectory = true ∧
          ∃ children, childrenOf tree place.path = .ok children ∧ item ∈ visit children) ∨
        ∃ cause, IsSealed tree place cause ∧ item = .error cause := by
  rw [inside]
  cases hdirectory : place.isDirectory with
  | false =>
    rw [if_neg Bool.false_ne_true]
    constructor
    · exact fun hmem => absurd hmem List.not_mem_nil
    · rintro (⟨⟨⟩, -⟩ | ⟨cause, ⟨hsealed, -⟩, -⟩)
      rw [hdirectory] at hsealed
      cases hsealed
  | true =>
    rw [if_pos rfl]
    cases hchildren : childrenOf tree place.path with
    | ok children =>
      constructor
      · exact fun hmem => Or.inl ⟨rfl, children, rfl, hmem⟩
      · rintro (⟨-, _, ⟨⟩, hmem⟩ | ⟨cause, ⟨-, hrefused⟩, -⟩)
        · exact hmem
        · rw [childrenOf_eq_error_iff.mpr hrefused] at hchildren
          cases hchildren
    | error cause =>
      have hrefused := childrenOf_eq_error_iff.mp hchildren
      constructor
      · exact fun hmem => Or.inr ⟨cause, ⟨hdirectory, hrefused⟩, List.mem_singleton.mp hmem⟩
      · rintro (⟨-, _, ⟨⟩, -⟩ | ⟨other, ⟨-, hother⟩, rfl⟩)
        rw [hrefused] at hother
        cases hother
        exact List.mem_singleton_self _

/-- Each child is visited for itself. -/
theorem mem_inside_flatMap_iff {visit : Child → List Item} :
    item ∈ inside tree place (·.flatMap visit) ↔
      (∃ child, IsIn tree place child ∧ item ∈ visit child) ∨
        ∃ cause, IsSealed tree place cause ∧ item = .error cause := by
  rw [mem_inside_iff]
  apply or_congr_left
  constructor
  · rintro ⟨hdirectory, children, hchildren, hitem⟩
    obtain ⟨child, hmem, hitem⟩ := List.mem_flatMap.mp hitem
    exact ⟨child, ⟨hdirectory, children, hchildren, hmem⟩, hitem⟩
  · rintro ⟨child, ⟨hdirectory, children, hchildren, hmem⟩, hitem⟩
    exact ⟨hdirectory, children, hchildren, List.mem_flatMap.mpr ⟨child, hmem, hitem⟩⟩

end Inside

/-! ## All levels below a place -/

/-- How many levels can lie below a path, itself included. -/
def levelsLeft (path : String) : Nat :=
  if isHere path then maxPathBytes + 2 else maxPathBytes + 1 - path.utf8ByteSize + 1

theorem levelsLeft_pos (path : String) : 0 < levelsLeft path := by
  rw [levelsLeft]
  split
  · exact Nat.succ_pos _
  · exact Nat.succ_pos _

theorem levelsLeft_le (path : String) : levelsLeft path ≤ maxPathBytes + 2 := by
  rw [levelsLeft]
  split
  · exact Nat.le_refl _
  · omega

theorem IsIn.levelsLeft_lt {place : Place} {child : Child} (h : IsIn tree place child) :
    levelsLeft child.path < levelsLeft place.path := by
  obtain ⟨hsize, name, hname, hpath⟩ := h.exists_name
  rw [hpath, levelsLeft, levelsLeft, isHere_childPath hname, if_neg Bool.false_ne_true]
  cases hhere : isHere place.path with
  | true =>
    have hpos := size_pos_of_isName hname
    rw [if_pos rfl, childPath, hhere, if_pos rfl]
    omega
  | false =>
    have hlonger := size_lt_childPath hname hhere
    rw [if_neg Bool.false_ne_true]
    omega

/-- The search goes down far enough. -/
theorem mem_below_iff {visit : Child → List Item} {item : Item} {depth : Nat} {place : Place}
    (h : levelsLeft place.path ≤ depth) :
    item ∈ below tree visit depth place ↔
      ∃ lower, IsUnder tree place lower ∧ item ∈ inside tree lower (·.flatMap visit) := by
  induction depth generalizing place with
  | zero => exact absurd (levelsLeft_pos place.path) (Nat.not_lt.mpr h)
  | succ depth ih =>
    -- What the place itself gives, and what is below its children.
    have hstep : item ∈ below tree visit (depth + 1) place ↔
        item ∈ inside tree place (·.flatMap visit) ∨
          ∃ child, IsIn tree place child ∧ item ∈ below tree visit depth child.toPlace := by
      simp only [below, mem_inside_flatMap_iff, List.mem_append, and_or_left, exists_or]
      exact or_right_comm
    have hbelow {child : Child} (hchild : IsIn tree place child) :
        item ∈ below tree visit depth child.toPlace ↔
          ∃ lower, IsUnder tree child.toPlace lower ∧
            item ∈ inside tree lower (·.flatMap visit) :=
      ih (Nat.le_of_lt_succ (Nat.lt_of_lt_of_le hchild.levelsLeft_lt h))
    rw [hstep]
    constructor
    · rintro (hitem | ⟨child, hchild, hitem⟩)
      · exact ⟨place, .refl, hitem⟩
      · obtain ⟨lower, hlower, hitem⟩ := (hbelow hchild).mp hitem
        exact ⟨lower, .head ⟨child, hchild, rfl⟩ hlower, hitem⟩
    · rintro ⟨lower, hlower, hitem⟩
      rcases hlower.cases_head with rfl | ⟨_, ⟨child, hchild, rfl⟩, hlower⟩
      · exact Or.inl hitem
      · exact Or.inr ⟨child, hchild, (hbelow hchild).mpr ⟨lower, hlower, hitem⟩⟩

/-- **The search below a place reaches all levels.** -/
theorem mem_allBelow_iff {visit : Child → List Item} {place : Place} {item : Item} :
    item ∈ allBelow tree visit place ↔
      ∃ lower, IsUnder tree place lower ∧ item ∈ inside tree lower (·.flatMap visit) :=
  mem_below_iff (levelsLeft_le place.path)

end FileGlob

end FindingFilter
