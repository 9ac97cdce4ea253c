import FindingFilter.Proofs.FileGlob.Ways
import FindingFilter.Proofs.Results

/-!
# File patterns — the paths that a text names

Paths are ordered by their components, so that a directory comes before what is in it. This is a
total preorder (`Path.le_total`, `Path.le_trans`), though no order of texts: `a//b` and `a/b` have the
same components.

A text without wildcards names itself, and any other text is a pattern and names paths of the tree
(`FileTree.Expands`). **`FileTree.expands_of_expand`** says that a text is expanded to the paths that it
names, all of them and in order (`FileTree.Expands.mem_iff`), **`FileTree.expand_eq_error_iff`** why it
is not expanded, and **`FileTree.exists_expand_iff`** when it is: it must be a pattern, and all
directories that it looks into can be listed.
-/

namespace FindingFilter

/-! ## The order of paths -/

namespace Path

/-- A component comes before one of a later kind, and a name before a greater name. -/
theorem Component.before_iff {a b : Component} :
    a.before b = true ↔
      a.rank < b.rank ∨ ∃ text other, a = .name text ∧ b = .name other ∧ text < other := by
  cases a <;> cases b <;> simp [before, rank]

theorem Component.before_trans {a b c : Component} (hab : a.before b = true)
    (hbc : b.before c = true) : a.before c = true := by
  rw [before_iff] at hab hbc ⊢
  rcases hab with hab | ⟨text, other, rfl, rfl, hab⟩
  · rcases hbc with hbc | ⟨other, last, rfl, rfl, -⟩
    · exact Or.inl (Nat.lt_trans hab hbc)
    · exact Or.inl hab
  · rcases hbc with hbc | ⟨middle, last, hmiddle, rfl, hbc⟩
    · exact Or.inl hbc
    · cases hmiddle
      exact Or.inr ⟨text, last, rfl, rfl, String.lt_trans hab hbc⟩

theorem Component.before_trichotomy (a b : Component) :
    a.before b = true ∨ a = b ∨ b.before a = true := by
  cases a with
  | name text =>
    cases b with
    | name other =>
      simp only [before, decide_eq_true_eq, name.injEq]
      exact Std.lt_trichotomy text other
    | _ => simp [before, rank]
  | _ => cases b <;> simp [before, rank]

theorem componentsLe_cons_iff {a b : Component} {as bs : List Component} :
    componentsLe (a :: as) (b :: bs) = true ↔
      a.before b = true ∨ a = b ∧ componentsLe as bs = true := by
  rw [componentsLe, Bool.or_eq_true, Bool.and_eq_true, beq_iff_eq]

theorem componentsLe_total (as bs : List Component) :
    componentsLe as bs = true ∨ componentsLe bs as = true := by
  induction as generalizing bs with
  | nil => exact Or.inl (by rw [componentsLe])
  | cons a as ih =>
    cases bs with
    | nil => exact Or.inr (by rw [componentsLe])
    | cons b bs =>
      rw [componentsLe_cons_iff, componentsLe_cons_iff]
      rcases Component.before_trichotomy a b with h | rfl | h
      · exact Or.inl (Or.inl h)
      · exact (ih bs).imp (fun h => Or.inr ⟨rfl, h⟩) (fun h => Or.inr ⟨rfl, h⟩)
      · exact Or.inr (Or.inl h)

theorem componentsLe_trans {as bs cs : List Component} (hab : componentsLe as bs = true)
    (hbc : componentsLe bs cs = true) : componentsLe as cs = true := by
  induction as generalizing bs cs with
  | nil => rw [componentsLe]
  | cons a as ih =>
    cases bs with
    | nil => simp [componentsLe] at hab
    | cons b bs =>
      cases cs with
      | nil => simp [componentsLe] at hbc
      | cons c cs =>
        rw [componentsLe_cons_iff] at hab hbc ⊢
        rcases hab with hab | ⟨rfl, hab⟩
        · rcases hbc with hbc | ⟨rfl, -⟩
          · exact Or.inl (Component.before_trans hab hbc)
          · exact Or.inl hab
        · exact hbc.imp_right fun ⟨heq, hbc⟩ => ⟨heq, ih hab hbc⟩

theorem le_total (path other : String) : le path other = true ∨ le other path = true :=
  componentsLe_total (components path) (components other)

theorem le_trans {path other last : String} (h : le path other = true)
    (h' : le other last = true) : le path last = true :=
  componentsLe_trans h h'

end Path

/-! ## What a text is expanded to -/

/-- If the text holds a wildcard, it is a pattern. -/
def FileGlob.IsPattern (text : String) : Prop :=
  Wildcard.hasWildcard text.toList = true → ∃ glob, FileGlob.ofText text = .ok glob

namespace FileTree

variable {tree : FileTree} {text : String} {paths : List String}

/-- Every directory that the text looks into, if it is a pattern, can be listed. A text without
wildcards looks into none. -/
def IsListable (tree : FileTree) (text : String) : Prop :=
  ∀ glob, Wildcard.hasWildcard text.toList = true → FileGlob.ofText text = .ok glob →
    ∀ directory, glob.LooksInto tree directory → ∃ listed, tree.listing directory = .ok listed

/-- The text names these paths, and they stand in the order of paths. A text without wildcards names
itself, whether or not it leads to anything; a pattern names all paths that it comes upon in the
tree, if it comes upon nothing else. -/
inductive Expands (tree : FileTree) : String → List String → Prop where
  | plain {path : String} (h : Wildcard.hasWildcard path.toList = false) : Expands tree path [path]
  | pattern {text : String} {glob : FileGlob} {found paths : List String}
      (h : Wildcard.hasWildcard text.toList = true) (hglob : FileGlob.ofText text = .ok glob)
      (hfound : glob.items tree = found.map .ok) (hperm : paths.Perm found)
      (hsorted : paths.Pairwise fun path other => Path.le path other = true) :
      Expands tree text paths

/-- The text is not expanded for this reason: it is no pattern, or of all that it comes upon the first
failure is this one. -/
inductive CannotExpand (tree : FileTree) (text : String) : FileGlob.ExpansionError → Prop where
  | pattern {cause : FileGlob.Error} (h : Wildcard.hasWildcard text.toList = true)
      (hglob : FileGlob.ofText text = .error cause) : CannotExpand tree text (.pattern cause)
  | listing {glob : FileGlob} {found : List String} {cause : FileError} {rest : List FileGlob.Item}
      (h : Wildcard.hasWildcard text.toList = true) (hglob : FileGlob.ofText text = .ok glob)
      (hfound : glob.items tree = found.map .ok ++ .error cause :: rest) :
      CannotExpand tree text (.listing cause)

theorem expand_eq_ok_iff :
    tree.expand text = .ok paths ↔
      (Wildcard.hasWildcard text.toList = false ∧ paths = [text]) ∨
        ∃ (glob : FileGlob) (found : List String),
          Wildcard.hasWildcard text.toList = true ∧ FileGlob.ofText text = .ok glob ∧
            glob.items tree = found.map .ok ∧ paths = found.mergeSort Path.le := by
  rw [expand, FileTree.glob]
  cases Wildcard.hasWildcard text.toList with
  | false => simp [eq_comm]
  | true =>
    cases FileGlob.ofText text with
    | error cause => simp
    | ok glob =>
      simp only [← mapM_id_eq_ok_iff]
      cases hfound : (glob.items tree).mapM id <;> simp [hfound, eq_comm]

/-- **A text is expanded to the paths that it names**, in the order of paths. -/
theorem expands_of_expand (h : tree.expand text = .ok paths) : tree.Expands text paths := by
  rcases expand_eq_ok_iff.mp h with ⟨hplain, rfl⟩ | ⟨glob, found, hwild, hglob, hfound, rfl⟩
  · exact .plain hplain
  · refine .pattern hwild hglob hfound (List.mergeSort_perm _ _) (List.pairwise_mergeSort ?_ ?_ _)
    · exact fun _ _ _ => Path.le_trans
    · exact fun path other => Bool.or_eq_true_iff.mpr (Path.le_total path other)

/-- A pattern is expanded to the paths at the ends of its ways, and to no others. -/
theorem Expands.mem_iff {glob : FileGlob} (h : tree.Expands text paths)
    (hwild : Wildcard.hasWildcard text.toList = true) (hglob : FileGlob.ofText text = .ok glob)
    {path : String} : path ∈ paths ↔ glob.Names tree path := by
  cases h with
  | plain hplain =>
    rw [hplain] at hwild
    cases hwild
  | @pattern other found _ _ hother hfound hperm _ =>
    obtain rfl : other = glob := Except.ok.inj (hother.symm.trans hglob)
    rw [← FileGlob.ok_mem_items_iff, hperm.mem_iff, hfound]
    simp

/-- Paths that stand in order already are left as they are. -/
theorem expand_of_pairwise {glob : FileGlob} (hwild : Wildcard.hasWildcard text.toList = true)
    (hglob : FileGlob.ofText text = .ok glob) (hpaths : glob.items tree = paths.map .ok)
    (hsorted : paths.Pairwise fun path other => Path.le path other = true) :
    tree.expand text = .ok paths :=
  expand_eq_ok_iff.mpr (Or.inr
    ⟨glob, paths, hwild, hglob, hpaths, (List.mergeSort_of_pairwise hsorted).symm⟩)

/-- **Why a text is not expanded.** -/
theorem expand_eq_error_iff {error : FileGlob.ExpansionError} :
    tree.expand text = .error error ↔ tree.CannotExpand text error := by
  constructor
  · intro h
    rw [expand] at h
    split at h
    next hwild =>
      rw [FileTree.glob] at h
      split at h
      next hglob =>
        cases h
        exact .pattern hwild hglob
      next glob hglob =>
        split at h
        next hfailure =>
          cases h
          obtain ⟨found, rest, hfound⟩ := mapM_id_eq_error_iff.mp hfailure
          exact .listing hwild hglob hfound
        · cases h
    · cases h
  · rintro (⟨hwild, hglob⟩ | ⟨hwild, hglob, hfound⟩)
    · rw [expand, if_pos hwild, FileTree.glob, hglob]
    · have hfailure := mapM_id_eq_error_iff.mpr ⟨_, _, hfound⟩
      rw [expand, if_pos hwild, FileTree.glob, hglob]
      simp only [hfailure]

/-- **A text can be expanded** if and only if it is a pattern, or plain, and all directories that it
looks into can be listed. -/
theorem exists_expand_iff :
    (∃ paths, tree.expand text = .ok paths) ↔
      FileGlob.IsPattern text ∧ tree.IsListable text := by
  constructor
  · rintro ⟨paths, hexpand⟩
    rcases expand_eq_ok_iff.mp hexpand with
      ⟨hplain, -⟩ | ⟨glob, found, -, hglob, hfound, -⟩
    · refine ⟨fun hwild => ?_, fun glob hwild => ?_⟩
      · rw [hplain] at hwild
        cases hwild
      · rw [hplain] at hwild
        cases hwild
    · refine ⟨fun _ => ⟨glob, hglob⟩, fun other _ hother directory hlooks => ?_⟩
      obtain rfl : glob = other := Except.ok.inj (hglob.symm.trans hother)
      cases hlisting : tree.listing directory with
      | ok listed => exact ⟨listed, rfl⟩
      | error cause =>
        -- The pattern would have come upon the failure of this directory.
        have hfailure := FileGlob.error_mem_items_iff.mpr ⟨directory, hlooks, hlisting⟩
        rw [hfound] at hfailure
        simp at hfailure
  · rintro ⟨hpattern, hlistable⟩
    cases hexpand : tree.expand text with
    | ok paths => exact ⟨paths, rfl⟩
    | error error =>
      rcases expand_eq_error_iff.mp hexpand with
        @⟨cause, hwild, hglob⟩ | @⟨glob, found, cause, rest, hwild, hglob, hfound⟩
      · obtain ⟨glob, hok⟩ := hpattern hwild
        rw [hglob] at hok
        cases hok
      · have hfailure : .error cause ∈ glob.items tree := by simp [hfound]
        obtain ⟨directory, hlooks, hrefused⟩ := FileGlob.error_mem_items_iff.mp hfailure
        obtain ⟨listed, hlisted⟩ := hlistable glob hwild hglob directory hlooks
        rw [hrefused] at hlisted
        cases hlisted

end FileTree

end FindingFilter
